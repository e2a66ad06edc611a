/-
Runs of a labelled transition system.

A run is recorded the way it happened: a trace grows at its right end by one
label a step.  That orientation is what makes a statement about *history* easy —
"the most recent claim", "how often this has succeeded so far" — because the
induction then hands over the trace up to the step and the label that extends it.

The last section is about stores.  An operation on a store either answers and
moves the state or raises and leaves it alone, and a store whose transactions are
serialised sees its clients' operations one after another.  `Commit` is that step,
so a `Run` of it ranges over every interleaving of any number of clients.
-/
import Mathlib.Data.List.Induction

namespace Runs

variable {σ ℓ : Type*} {step : σ → ℓ → σ → Prop} {init : σ}

/-- `Run step init trace s`: the labels of `trace`, in order, lead from `init` to `s`. -/
inductive Run (step : σ → ℓ → σ → Prop) (init : σ) : List ℓ → σ → Prop
  | nil : Run step init [] init
  | snoc {trace : List ℓ} {s s' : σ} {l : ℓ} (h : Run step init trace s)
      (hstep : step s l s') : Run step init (trace ++ [l]) s'

namespace Run

variable {s : σ} {trace : List ℓ}

/-- What holds at the start and survives every step holds wherever a run gets. -/
theorem invariant {I : σ → Prop} (h0 : I init) (hstep : ∀ s l s', I s → step s l s' → I s')
    (h : Run step init trace s) : I s := by
  induction h with
  | nil => exact h0
  | snoc _ hs ih => exact hstep _ _ _ ih hs

/-- The same for a relation between what has happened and where it led. -/
theorem history {I : List ℓ → σ → Prop} (h0 : I [] init)
    (hstep : ∀ trace s l s', Run step init trace s → I trace s → step s l s' → I (trace ++ [l]) s')
    (h : Run step init trace s) :
    I trace s := by
  induction h with
  | nil => exact h0
  | snoc hrun hs ih => exact hstep _ _ _ _ hrun ih hs

variable {first rest : List ℓ} {m s' s : σ}

/-- Runs compose. -/
theorem append (h1 : Run step init first m) (h2 : Run step m rest s) :
    Run step init (first ++ rest) s := by
  induction h2 with
  | nil => simpa using h1
  | snoc _ hs ih =>
    rw [← List.append_assoc]
    exact ih.snoc hs

/-- The last step of a run that took one. -/
theorem last {l : ℓ} (h : Run step init (trace ++ [l]) s) :
    ∃ m, Run step init trace m ∧ step m l s := by
  generalize heq : trace ++ [l] = full at h
  cases h with
  | nil => simp at heq
  | snoc hrun hs =>
    obtain ⟨rfl, hl⟩ := List.append_inj' heq rfl
    simp only [List.cons.injEq, and_true] at hl
    exact ⟨_, hrun, hl ▸ hs⟩

/-- Every run passes through a state after each prefix of its trace. -/
theorem split (h : Run step init (first ++ rest) s) :
    ∃ m, Run step init first m ∧ Run step m rest s := by
  induction rest using List.reverseRecOn generalizing s with
  | nil => exact ⟨s, by simpa using h, Run.nil⟩
  | append_singleton rest l ih =>
    rw [← List.append_assoc] at h
    obtain ⟨m, hm, hs⟩ := h.last
    obtain ⟨m', h1, h2⟩ := ih hm
    exact ⟨m', h1, h2.snoc hs⟩

/-- A run of no steps stays where it is. -/
theorem of_nil (h : Run step init [] s) : s = init := by
  generalize heq : ([] : List ℓ) = full at h
  cases h with
  | nil => rfl
  | snoc => simp at heq

/-- Where a label leads to one state, a trace does. -/
theorem det (hdet : ∀ s l t t', step s l t → step s l t' → t = t')
    (h : Run step init trace s) (h' : Run step init trace s') : s = s' := by
  induction trace using List.reverseRecOn generalizing s s' with
  | nil => exact h.of_nil.trans h'.of_nil.symm
  | append_singleton trace l ih =>
    obtain ⟨m, hm, hs⟩ := h.last
    obtain ⟨m', hm', hs'⟩ := h'.last
    obtain rfl := ih hm hm'
    exact hdet _ _ _ _ hs hs'

end Run

/-! ### The most recent event -/

/-- The value `f` reads off the last label of the trace that it reads one off at all. -/
def latest {α : Type*} (f : ℓ → Option α) (trace : List ℓ) : Option α :=
  trace.reverse.findSome? f

variable {α : Type*} {l : ℓ} {trace : List ℓ} {C : List ℓ → σ → ℓ → Prop}

@[simp] theorem latest_nil (f : ℓ → Option α) : latest f [] = none := rfl

theorem latest_snoc (f : ℓ → Option α) (trace : List ℓ) (l : ℓ) :
    latest f (trace ++ [l]) = (f l).or (latest f trace) := by
  unfold latest
  rw [List.reverse_append, List.reverse_singleton, List.singleton_append, List.findSome?_cons]
  cases f l with
  | none | some a => rfl

variable {f : ℓ → Option α} {p : ℓ → Bool} {I : List ℓ → σ → Prop}

/-- An event that `f` reads nothing off leaves the most recent one. -/
theorem latest_snoc_none (h : f l = none) : latest f (trace ++ [l]) = latest f trace := by
  rw [latest_snoc, h, Option.none_or]

/-- An event that `f` reads `a` off is the most recent one. -/
theorem latest_snoc_some {a : α} (h : f l = some a) : latest f (trace ++ [l]) = some a := by
  rw [latest_snoc, h, Option.some_or]

/-- Nothing was read off a trace when nothing can be read off its labels. -/
theorem latest_eq_none : latest f trace = none ↔ ∀ l ∈ trace, f l = none := by
  unfold latest
  rw [List.findSome?_eq_none_iff]
  simp only [List.mem_reverse]

/-! ### Since the last event -/

/-- The labels after the last one that satisfies `p`; all of them if none does. -/
def since (p : ℓ → Bool) (trace : List ℓ) : List ℓ :=
  (trace.reverse.takeWhile fun l => !p l).reverse

@[simp] theorem since_nil (p : ℓ → Bool) : since p [] = [] := rfl

theorem since_snoc_of_pos (h : p l = true) : since p (trace ++ [l]) = [] := by
  unfold since
  rw [List.reverse_append, List.reverse_singleton, List.singleton_append,
    List.takeWhile_cons_of_neg (by simp [h])]
  rfl

theorem since_snoc_of_neg (h : p l = false) : since p (trace ++ [l]) = since p trace ++ [l] := by
  unfold since
  rw [List.reverse_append, List.reverse_singleton, List.singleton_append,
    List.takeWhile_cons_of_pos (by simp [h]), List.reverse_cons]

/-! ### First occurrences -/

section Firsts

variable {α β γ : Type*} [DecidableEq β] [DecidableEq γ]

/-- The items of a list without those that `f` identifies with an earlier one. -/
def firsts (f : α → β) (items : List α) : List α :=
  items.foldl (fun kept a => if f a ∈ kept.map f then kept else kept ++ [a]) []

@[simp] theorem firsts_nil (f : α → β) : firsts f [] = [] := rfl

theorem firsts_snoc (f : α → β) (items : List α) (a : α) : firsts f (items ++ [a]) =
      if f a ∈ (firsts f items).map f then firsts f items else firsts f items ++ [a] := by
  simp [firsts]

/-- An item is kept, or was preceded by one it is identified with. -/
theorem map_mem_firsts (f : α → β) (items : List α) {a : α} (ha : a ∈ items) :
    f a ∈ (firsts f items).map f := by
  induction items using List.reverseRecOn with
  | nil => cases ha
  | append_singleton items b ih =>
    rw [firsts_snoc]
    rcases List.mem_append.mp ha with ha | ha
    · split
      · exact ih ha
      · rw [List.map_append]
        exact List.mem_append_left _ (ih ha)
    · rw [List.mem_singleton.mp ha]
      split
      · assumption
      · simp

theorem firsts_subset (f : α → β) (items : List α) : firsts f items ⊆ items := by
  induction items using List.reverseRecOn with
  | nil => exact List.Subset.refl _
  | append_singleton items b ih =>
    rw [firsts_snoc]
    split
    · exact List.subset_append_of_subset_left _ ih
    · exact List.append_subset.mpr
        ⟨List.subset_append_of_subset_left _ ih, List.subset_append_right _ _⟩

/-- What is kept depends only on which items are identified. -/
theorem firsts_congr {f : α → β} {g : α → γ} {items : List α}
    (h : ∀ a ∈ items, ∀ b ∈ items, f a = f b ↔ g a = g b) : firsts f items = firsts g items := by
  induction items using List.reverseRecOn with
  | nil => rfl
  | append_singleton items b ih =>
    have hprev := ih fun a ha c hc =>
      h a (List.mem_append_left _ ha) c (List.mem_append_left _ hc)
    have hseen : f b ∈ (firsts f items).map f ↔ g b ∈ (firsts g items).map g := by
      rw [hprev]
      simp only [List.mem_map]
      refine exists_congr fun a => and_congr_right fun ha => ?_
      exact h a (List.mem_append_left _ (firsts_subset g items ha)) b (by simp)
    rw [firsts_snoc, firsts_snoc, hprev]
    simp only [hprev] at hseen
    by_cases hb : f b ∈ (firsts g items).map f
    · rw [if_pos hb, if_pos (hseen.mp hb)]
    · rw [if_neg hb, if_neg fun hg => hb (hseen.mpr hg)]

end Firsts

/-! ### Runs under a condition

A condition that some steps of a system may break is one on what had happened, the
state the step starts from and the step taken.
-/

/-- `C` held at every step of the trace. -/
def Throughout (step : σ → ℓ → σ → Prop) (init : σ) (C : List ℓ → σ → ℓ → Prop)
    (trace : List ℓ) : Prop :=
  ∀ first l rest m, trace = first ++ l :: rest → Run step init first m → C first m l

theorem Throughout.initial (h : Throughout step init C (trace ++ [l])) :
    Throughout step init C trace := by
  intro first l' rest m heq hrun
  exact h first l' (rest ++ [l]) m (by rw [heq, List.append_assoc, List.cons_append]) hrun

theorem Throughout.last (h : Throughout step init C (trace ++ [l]))
    (hrun : Run step init trace m) : C trace m l :=
  h trace l [] m rfl hrun

theorem Throughout.nil : Throughout step init C [] := by
  intro first l rest m heq
  simp at heq

/-- One more step that meets the condition. -/
theorem Throughout.snoc {C : List ℓ → σ → ℓ → Prop} {trace : List ℓ} {l : ℓ}
    (h : Throughout step init C trace) (hl : ∀ m, Run step init trace m → C trace m l) :
    Throughout step init C (trace ++ [l]) := by
  intro first l' rest m heq hrun
  induction rest using List.reverseRecOn with
  | nil =>
    obtain ⟨rfl, hlast⟩ := List.append_inj' heq rfl
    obtain rfl := (List.cons.inj hlast).1
    exact hl m hrun
  | append_singleton rest l'' _ =>
    rw [← List.cons_append, ← List.append_assoc] at heq
    obtain ⟨htrace, -⟩ := List.append_inj' heq rfl
    exact h first l' rest m htrace hrun

/-- A condition on states and steps held throughout the second half of a run. -/
theorem Throughout.after {C : σ → ℓ → Prop} {before rest : List ℓ}
    (h : Throughout step init (fun _ s l => C s l) (before ++ rest))
    (hrun : Run step init before m) : Throughout step m (fun _ s l => C s l) rest := by
  rintro first l rest' m' rfl hrun'
  exact h (before ++ first) l rest' m' (by rw [List.append_assoc]) (hrun.append hrun')

/-- The invariants of the runs that meet the condition at every step. -/
theorem Run.throughout (h0 : I [] init)
    (hstep : ∀ trace s l s', Run step init trace s → I trace s → C trace s l → step s l s' →
      I (trace ++ [l]) s') (h : Run step init trace s) (hC : Throughout step init C trace) :
    I trace s := by
  induction h with
  | nil => exact h0
  | snoc hrun hs ih => exact hstep _ _ _ _ hrun (ih hC.initial) (hC.last hrun) hs

/-- Where a step keeps `I` just if it meets `C`, `I` held all along the runs that met `C` at
every step, and no others. -/
theorem Run.throughout_iff (hdet : ∀ s l t t', step s l t → step s l t' → t = t') (h0 : I [] init)
    (hstep : ∀ trace s l s', Run step init trace s → I trace s → step s l s' →
      (I (trace ++ [l]) s' ↔ C trace s l)) (h : Run step init trace s) :
    (∀ first m rest, trace = first ++ rest → Run step init first m → I first m) ↔
      Throughout step init C trace := by
  constructor
  · rintro hI first l rest m rfl hrun
    rw [List.append_cons] at h
    obtain ⟨m', hrun', -⟩ := h.split
    obtain ⟨m'', hrun'', hl⟩ := hrun'.last
    obtain rfl := hrun''.det hdet hrun
    have hprev := hI first m'' (l :: rest) rfl hrun''
    have hnext := hI (first ++ [l]) m' rest (List.append_cons ..) hrun'
    exact (hstep first m'' l m' hrun'' hprev hl).mp hnext
  · rintro hC first m rest rfl hrun
    refine hrun.throughout (C := C) h0 (fun trace s l s' hs hI hl hstep' => ?_) ?_
    · exact (hstep trace s l s' hs hI hstep').mpr hl
    · intro first' l rest' m' heq hrun'
      exact hC first' l (rest' ++ rest) m' (by rw [heq, List.append_assoc, List.cons_append]) hrun'

/-! ### What a step since the last event did -/

/-- Since the last label of `p`, a step met `C`. -/
def SomeSince (step : σ → ℓ → σ → Prop) (init : σ) (p : ℓ → Bool) (C : σ → ℓ → Prop)
    (trace : List ℓ) : Prop :=
  ∃ first l rest m, trace = first ++ l :: rest ∧ (∀ l' ∈ rest, p l' = false) ∧
    Run step init first m ∧ C m l

theorem SomeSince.last {C : σ → ℓ → Prop} (hrun : Run step init trace m) (h : C m l) :
    SomeSince step init p C (trace ++ [l]) :=
  ⟨trace, l, [], m, rfl, by simp, hrun, h⟩

theorem SomeSince.snoc {p : ℓ → Bool} {C : σ → ℓ → Prop} {trace : List ℓ} {l : ℓ}
    (h : SomeSince step init p C trace) (hl : p l = false) :
    SomeSince step init p C (trace ++ [l]) := by
  obtain ⟨first, l', rest, m, rfl, hrest, hrun, hC⟩ := h
  refine ⟨first, l', rest ++ [l], m, by simp, ?_, hrun, hC⟩
  intro l'' hl''
  rcases List.mem_append.mp hl'' with hl'' | hl''
  · exact hrest l'' hl''
  · rw [List.mem_singleton.mp hl'']
    exact hl

/-- The step is among those since the last label of `p`, which it is not itself. -/
theorem SomeSince.mem_since {C : σ → ℓ → Prop} (h : SomeSince step init p C trace)
    (hC : ∀ m l, C m l → p l = false) :
    ∃ l ∈ since p trace, ∃ m, C m l := by
  obtain ⟨first, l, rest, m, rfl, hrest, -, hl⟩ := h
  refine ⟨l, ?_, m, hl⟩
  have hrev : ∀ l' ∈ rest.reverse, (!p l') = true := fun l' hl' => by
    simp [hrest l' (List.mem_reverse.mp hl')]
  rw [since, List.reverse_append, List.reverse_cons, List.append_assoc,
    List.takeWhile_append_of_pos hrev, List.singleton_append,
    List.takeWhile_cons_of_pos (by simp [hC m l hl])]
  simp

/-! ### Systems with a step function

`exec` says where a label leads, if it can be taken.  A relation that refines it has one
run for a trace, so a concrete trace is checked by following it.
-/

section Play

variable {exec : σ → ℓ → Option σ}

/-- Follow a trace from a state. -/
def play (exec : σ → ℓ → Option σ) : List ℓ → σ → Option σ
  | [], s => some s
  | l :: rest, s => (exec s l).bind (play exec rest)

/-- `check` holds at every step of the trace that can be taken. -/
def allSteps (exec : σ → ℓ → Option σ) (check : σ → ℓ → Bool) : List ℓ → σ → Bool
  | [], _ => true
  | l :: rest, s => check s l && (exec s l).all (allSteps exec check rest)

/-- A trace that can be followed is a run. -/
theorem run_of_play {labels : List ℓ}
    (hstep : ∀ s l s', exec s l = some s' → step s l s') (h : play exec labels s = some s') :
    Run step s labels s' := by
  induction labels generalizing s with
  | nil =>
    cases h
    exact .nil
  | cons l rest ih =>
    obtain ⟨m, hm, hrest⟩ := Option.bind_eq_some_iff.mp h
    exact (Run.nil.snoc (hstep s l m hm)).append (ih hrest)

/-- A condition that was checked along the trace held throughout. -/
theorem throughout_of_allSteps {check : σ → ℓ → Bool} {labels : List ℓ}
    (hstep : ∀ s l s', step s l s' → exec s l = some s')
    (h : allSteps exec check labels init = true) :
    Throughout step init (fun _ s l => check s l = true) labels := by
  rintro first l rest m rfl hrun
  suffices hsuffix : allSteps exec check (l :: rest) m = true by
    exact (Bool.and_eq_true_iff.mp hsuffix).1
  induction hrun generalizing l rest with
  | nil => exact h
  | @snoc trace s s' l' _ hl ih =>
    rw [List.append_assoc] at h
    have hprev := (Bool.and_eq_true_iff.mp (ih l' (l :: rest) h)).2
    rwa [hstep s l' s' hl] at hprev

end Play

/-! ### Stores

`exec` says what one call does.  A call that raises is rolled back.
-/

section Store

variable {ι ε ω : Type*} {exec : ι → σ → Except ε (ω × σ)}

/-- One call on a store, with its outcome: an answer and the new state, or an error
and the old one. -/
inductive Commit (exec : ι → σ → Except ε (ω × σ)) : σ → ι × Except ε ω → σ → Prop
  | ok {s s' : σ} {i : ι} {a : ω} (h : exec i s = .ok (a, s')) : Commit exec s (i, .ok a) s'
  | error {s : σ} {i : ι} {e : ε} (h : exec i s = .error e) : Commit exec s (i, .error e) s

/-- Every call ends in one way or the other. -/
theorem commit_total (exec : ι → σ → Except ε (ω × σ)) (s : σ) (i : ι) :
    ∃ out s', Commit exec s (i, out) s' := by
  cases h : exec i s with
  | ok r => exact ⟨.ok r.1, r.2, .ok (by rw [h])⟩
  | error e => exact ⟨.error e, s, .error h⟩

/-- A call's outcome is determined by the state it runs in. -/
theorem Commit.det {t t' : σ} {i : ι} {out out' : Except ε ω}
    (h : Commit exec s (i, out) t) (h' : Commit exec s (i, out') t') :
    out = out' ∧ t = t' := by
  cases h with
  | ok h =>
    cases h' with
    | ok h' =>
      rw [h, Except.ok.injEq, Prod.mk.injEq] at h'
      exact ⟨by rw [h'.1], h'.2⟩
    | error h' => rw [h] at h'; cases h'
  | error h =>
    cases h' with
    | ok h' => rw [h] at h'; cases h'
    | error h' =>
      rw [h, Except.error.injEq] at h'
      exact ⟨by rw [h'], rfl⟩

/-- A trace of calls and outcomes leads to one state. -/
theorem Run.commit_det {trace : List (ι × Except ε ω)}
    (h : Run (Commit exec) init trace s) (h' : Run (Commit exec) init trace s') : s = s' := by
  induction h generalizing s' with
  | nil => exact h'.of_nil.symm
  | snoc _ hs ih =>
    obtain ⟨m, hm, hs'⟩ := h'.last
    rw [← ih hm] at hs'
    exact (hs.det hs').2

/-- An invariant of the successful calls is an invariant of every run. -/
theorem Run.commit_invariant {I : σ → Prop} (h0 : I init)
    (hok : ∀ i s a s', I s → exec i s = .ok (a, s') → I s')
    {trace : List (ι × Except ε ω)} (h : Run (Commit exec) init trace s) : I s := by
  refine h.invariant h0 ?_
  intro s l s' hI hs
  cases hs with
  | ok hexec => exact hok _ _ _ _ hI hexec
  | error _ => exact hI

/-- Make the calls one after another, recording their outcomes. -/
def replay (exec : ι → σ → Except ε (ω × σ)) : List ι → σ → List (ι × Except ε ω) × σ
  | [], s => ([], s)
  | i :: rest, s =>
    match exec i s with
    | .ok (a, s') => ((i, .ok a) :: (replay exec rest s').1, (replay exec rest s').2)
    | .error e => ((i, .error e) :: (replay exec rest s).1, (replay exec rest s).2)

/-- Recorded calls are a run. -/
theorem replay_run (exec : ι → σ → Except ε (ω × σ)) (calls : List ι) (s : σ) :
    Run (Commit exec) s (replay exec calls s).1 (replay exec calls s).2 := by
  induction calls generalizing s with
  | nil => exact .nil
  | cons i rest ih =>
    unfold replay
    split
    · rename_i a s' h
      exact (Run.nil.snoc (.ok h)).append (ih s')
    · rename_i e h
      exact (Run.nil.snoc (.error h)).append (ih s)

end Store

/-! ### Reading a result backwards

A call is a sequence of checks followed by a write, so what a success implies is
read off one bind at a time.
-/

section Except

universe u v

variable {ε : Type u} {α β : Type v} {f : α → Except ε β} {x : Except ε α} {e : ε} {r : β}

theorem bind_eq_ok : (x >>= f) = .ok r ↔ ∃ a, x = .ok a ∧ f a = .ok r := by
  cases x with
  | ok a | error e => simp [bind, Except.bind]

theorem map_eq_ok {f : α → β} : x.map f = .ok r ↔ ∃ a, x = .ok a ∧ f a = r := by
  cases x with
  | ok a | error e => simp [Except.map]

theorem bind_eq_error : (x >>= f) = .error e ↔ x = .error e ∨ ∃ a, x = .ok a ∧ f a = .error e := by
  cases x with
  | ok a | error e' => simp [bind, Except.bind]

@[simp] theorem ok_bind {a : α} : ((Except.ok a : Except ε α) >>= f) = f a := rfl

@[simp] theorem error_bind : ((Except.error e : Except ε α) >>= f) = .error e := rfl

/-- A guard lets the computation through only when its condition holds. -/
theorem guard_eq_ok {c : Prop} [Decidable c] {x : Except ε β} :
    (if c then .error e else x) = .ok r ↔ ¬ c ∧ x = .ok r := by
  by_cases h : c
  · simp [h]
  · simp [h]

/-- A loop of checks succeeds when each of them does. -/
theorem forM_eq_ok {γ : Type*} {check : γ → Except ε PUnit.{v + 1}} {items : List γ} :
    items.forM check = .ok ⟨⟩ ↔ ∀ a ∈ items, check a = .ok ⟨⟩ := by
  induction items with
  | nil => exact ⟨fun _ a ha => (nomatch ha), fun _ => rfl⟩
  | cons a rest ih =>
    rw [List.forall_mem_cons, ← ih]
    show (check a >>= fun _ => rest.forM check) = _ ↔ _
    rw [bind_eq_ok]
    constructor
    · rintro ⟨_, ha, hrest⟩
      exact ⟨ha, hrest⟩
    · rintro ⟨ha, hrest⟩
      exact ⟨_, ha, hrest⟩

/-- A loop that collects succeeds when each of its calls does, with what they return. -/
theorem mapM_eq_ok {α β : Type*} {f : α → Except ε β} {items : List α} {results : List β} :
    items.mapM f = .ok results ↔ List.Forall₂ (fun a b => f a = .ok b) items results := by
  induction items generalizing results with
  | nil =>
    constructor
    · intro h
      rw [← Except.ok.inj h]
      exact .nil
    · intro h
      cases h
      rfl
  | cons a rest ih =>
    rw [List.mapM_cons, bind_eq_ok]
    constructor
    · rintro ⟨b, hb, h⟩
      obtain ⟨tail, htail, h⟩ := bind_eq_ok.mp h
      rw [← Except.ok.inj h]
      exact .cons hb (ih.mp htail)
    · intro h
      cases h with
      | cons hb htail => exact ⟨_, hb, bind_eq_ok.mpr ⟨_, ih.mpr htail, rfl⟩⟩

/-- What a loop collected, it collected from one of the items. -/
theorem exists_of_mapM {α β : Type*} {f : α → Except ε β} {items : List α} {results : List β}
    (h : items.mapM f = .ok results) {a : α} (ha : a ∈ items) : ∃ b ∈ results, f a = .ok b := by
  have hall := mapM_eq_ok.mp h
  induction hall with
  | nil => cases ha
  | cons hb htail ih =>
    rcases List.mem_cons.mp ha with rfl | ha
    · exact ⟨_, List.mem_cons_self, hb⟩
    · obtain ⟨b, hmem, hfb⟩ := ih (mapM_eq_ok.mpr htail) ha
      exact ⟨b, List.mem_cons_of_mem _ hmem, hfb⟩

/-- The computable test for a result being the error `e`. -/
def raises [DecidableEq ε] (e : ε) : Except ε α → Bool
  | .ok _ => false
  | .error e' => e' == e

theorem eq_error_of_raises [DecidableEq ε] (h : raises e x = true) : x = .error e := by
  cases x with
  | ok a => simp [raises] at h
  | error e' => simpa [raises] using h

end Except

end Runs
