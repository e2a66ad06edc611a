/-
The admission gate of a provider, for any callers and any order of their steps.

A caller that finds no permit waits on the condition; a release gives its permit back and notifies
the longest waiting caller.  Subscribed tokens wake every waiting caller when they are cancelled,
polled ones let their caller look again by a timeout.  A notified caller that finds itself
cancelled leaves without the permit and without passing the notification on.
-/
import AlysisCode.Library.Runs

namespace AlysisCode.ProviderLimits

open Runs

/-- A cancellation token, by whether `subscribe` on it gives an `unsubscribe`. -/
structure Token where
  id : Nat
  subscribes : Bool
deriving DecidableEq

/-- How an attempt of `call` ends, as far as the gate is concerned. -/
inductive Outcome
  | returned
  | raised
  /-- an error after which the loop goes round again -/
  | retried
deriving DecidableEq

/-- Where a call of `run_provider_limited_call` stands. -/
inductive Place
  /-- at the head of the retry loop -/
  | starting
  | subscribing
  /-- about to look at the permits: new at the condition, or awake by its timeout -/
  | entering
  | waiting
  | notified
  /-- out of `acquire` by a cancellation, still subscribed -/
  | leaving
  /-- out of `acquire` with a permit, still subscribed -/
  | admitted
  | calling
  | releasing (retry : Bool)
  | retrying
  | ended
deriving DecidableEq

/-- The place is one between taking a permit and giving it back. -/
def Place.holds : Place → Bool
  | .admitted | .calling | .releasing _ => true
  | _ => false

/-- The place is one between the subscription and the end of it. -/
def Place.subscribed : Place → Bool
  | .entering | .waiting | .notified | .leaving | .admitted => true
  | _ => false

structure Gate where
  available : Nat
  /-- the waiters of the condition, the longest waiting first -/
  waiters : List Nat
  places : List Place
  cancelled : List Token
  /-- the callbacks registered at tokens, by the caller they are for -/
  subscribers : List (Token × Nat)
  /-- callbacks claimed by a cancellation and not run yet -/
  wakes : Nat

inductive Label
  | advance (i : Nat)
  | timeout (i : Nat)
  | finish (i : Nat) (outcome : Outcome)
  | cancel (t : Token)
  | wake

namespace Gate

/-- A gate at which `n` callers have yet to arrive. -/
def start (permits n : Nat) : Gate :=
  ⟨permits, [], List.replicate n .starting, [], [], 0⟩

variable (token : Nat → Option Token) (g : Gate)

def isCancelled (i : Nat) : Bool := (token i).any (· ∈ g.cancelled)

def put (i : Nat) (p : Place) : Gate := { g with places := g.places.set i p }

/-- `Condition.notify(n)` -/
def notify : Nat → Gate → Gate
  | 0, g => g
  | n + 1, g =>
    match g.waiters with
    | [] => g
    | w :: rest => notify n { g.put w .notified with waiters := rest }

def notifyAll : Gate := notify g.waiters.length g

def unsubscribe (i : Nat) : Gate :=
  { g with subscribers := g.subscribers.filter (·.2 ≠ i) }

/-- The subscription that `acquire` begins with. -/
def subscribe (i : Nat) : Gate :=
  match (token i).filter (·.subscribes) with
  | none => g.put i .entering
  | some t =>
    -- a token that is cancelled already runs the callback at once
    if t ∈ g.cancelled then (g.put i .entering).notifyAll
    else { g.put i .entering with subscribers := g.subscribers ++ [(t, i)] }

/-- A caller of `acquire` with the condition's lock, new or awake again. -/
def enter (i : Nat) : Gate :=
  if g.available = 0 then
    if g.isCancelled token i then g.put i .leaving
    else { g.put i .waiting with waiters := g.waiters ++ [i] }
  else if g.isCancelled token i then g.put i .leaving
  else { g.put i .admitted with available := g.available - 1 }

/-- What caller `i` does next by itself. -/
def advance (i : Nat) (place : Place) : Option Gate :=
  match place with
  | .starting => some (g.put i (if g.isCancelled token i then .ended else .subscribing))
  | .subscribing => some (g.subscribe token i)
  | .entering | .notified => some (g.enter token i)
  | .leaving => some ((g.put i .ended).unsubscribe i)
  | .admitted =>
    some ((g.put i (if g.isCancelled token i then .releasing false else .calling)).unsubscribe i)
  | .releasing retry =>
    some (notify 1
      { g.put i (if retry then .retrying else .ended) with available := g.available + 1 })
  | .retrying => some (g.put i (if g.isCancelled token i then .ended else .starting))
  | .waiting | .calling | .ended => none

/-- One step of one caller, of a token or of a callback. -/
def exec : Label → Option Gate
  | .advance i => g.places[i]?.bind (g.advance token i)
  | .timeout i =>
    -- only a token that takes no subscription is waited for with a timeout
    if g.places[i]? = some .waiting ∧ (token i).any (!·.subscribes) then
      some { g.put i .entering with waiters := g.waiters.erase i }
    else none
  | .finish i outcome =>
    if g.places[i]? = some .calling then
      some (g.put i (.releasing (outcome = .retried ∧ g.isCancelled token i = false)))
    else none
  | .cancel t =>
    if t ∈ g.cancelled then some g
    else
      some { g with
        cancelled := t :: g.cancelled
        subscribers := g.subscribers.filter (·.1 ≠ t)
        wakes := g.wakes + g.subscribers.countP (·.1 = t) }
  | .wake => if 0 < g.wakes then some { g.notifyAll with wakes := g.wakes - 1 } else none

def Step (token : Nat → Option Token) (g : Gate) (l : Label) (g' : Gate) : Prop :=
  g.exec token l = some g'

end Gate

/-! ### Permits and waiters -/

/-- Permits are kept, and the waiters are the callers that wait. -/
structure Sound (cap available : Nat) (waiters : List Nat) (places : List Place) : Prop where
  conserved : available + places.countP Place.holds = cap
  queued : ∀ i, i ∈ waiters ↔ places[i]? = some .waiting
  nodup : waiters.Nodup

/-- Every free permit has a notified caller coming for it, or nobody waits. -/
def Passed (available : Nat) (waiters : List Nat) (places : List Place) : Prop :=
  waiters = [] ∨ available ≤ places.count .notified

variable {cap available available' i : Nat} {waiters : List Nat} {places : List Place} {p q : Place}

theorem countP_set (f : Place → Bool) (hp : places[i]? = some p) :
    (places.set i q).countP f + (f p).toNat = places.countP f + (f q).toNat := by
  obtain ⟨hi, rfl⟩ := List.getElem?_eq_some_iff.mp hp
  have hpos : f places[i] = true → 0 < places.countP f := fun h =>
    List.countP_pos_iff.mpr ⟨_, List.getElem_mem hi, h⟩
  rw [List.countP_set hi]
  cases hf : f places[i] <;> cases f q <;> simp_all

theorem waiting_set (hq : q ≠ .waiting) (j : Nat) :
    (places.set i q)[j]? = some .waiting ↔ places[j]? = some .waiting ∧ j ≠ i := by
  rw [List.getElem?_set]
  by_cases hij : i = j
  · subst hij
    simp [hq]
  · simp [hij, Ne.symm hij]

/-- A caller that does not wait goes to a place where it does not. -/
theorem Sound.set (h : Sound cap available waiters places) (hp : places[i]? = some p)
    (hpw : p ≠ .waiting) (hqw : q ≠ .waiting)
    (ha : available' + q.holds.toNat = available + p.holds.toNat) :
    Sound cap available' waiters (places.set i q) := by
  have hcount := countP_set (q := q) Place.holds hp
  refine ⟨by have := h.conserved; omega, fun j => ?_, h.nodup⟩
  rw [h.queued, waiting_set hqw]
  refine ⟨fun hj => ⟨hj, ?_⟩, And.left⟩
  rintro rfl
  exact hpw (Option.some.inj (hp.symm.trans hj))

/-- The waiter that is taken out of the queue waits no longer. -/
theorem Sound.unqueue {rest : List Nat} (h : Sound cap available waiters places)
    (hi : i ∈ waiters) (hrest : rest.Nodup) (hmem : ∀ j, j ∈ rest ↔ j ∈ waiters ∧ j ≠ i)
    (hqw : q ≠ .waiting) (hq : q.holds = false) : Sound cap available rest (places.set i q) := by
  have hcount := countP_set (q := q) Place.holds ((h.queued i).mp hi)
  rw [hq, show Place.holds .waiting = false from rfl] at hcount
  refine ⟨by have := h.conserved; omega, fun j => ?_, hrest⟩
  rw [hmem, h.queued, waiting_set hqw]

/-- The caller that begins to wait is the last of the queue. -/
theorem Sound.wait (h : Sound cap available waiters places) (hp : places[i]? = some p)
    (hpw : p ≠ .waiting) (hph : p.holds = false) :
    Sound cap available (waiters ++ [i]) (places.set i .waiting) := by
  have hcount := countP_set (q := .waiting) Place.holds hp
  rw [hph, show Place.holds .waiting = false from rfl] at hcount
  have hi : i ∉ waiters := fun hi =>
    hpw (Option.some.inj (hp.symm.trans ((h.queued i).mp hi)))
  refine ⟨by have := h.conserved; omega, fun j => ?_, List.nodup_append.mpr ⟨h.nodup, by simp, ?_⟩⟩
  · obtain ⟨hlt, -⟩ := List.getElem?_eq_some_iff.mp hp
    rw [List.mem_append, List.mem_singleton, h.queued, List.getElem?_set]
    by_cases hij : i = j
    · simp [hij ▸ hlt, hij]
    · simp [hij, Ne.symm hij]
  · rintro j hj k hk rfl
    exact hi (List.mem_singleton.mp hk ▸ hj)

/-- A move keeps the notified callers that are needed, if it takes none away without need. -/
theorem passed_set (hp : places[i]? = some p)
    (h : waiters = [] ∨ available + (p == .notified).toNat ≤ places.count .notified) :
    Passed available waiters (places.set i q) := by
  refine h.imp_right fun h => ?_
  have hcount := countP_set (q := q) (· == .notified) hp
  rw [List.count] at h ⊢
  omega

namespace Gate

variable {g g' : Gate} {token : Nat → Option Token} {n : Nat} {l : Label} {trace : List Label}

theorem notify_waiters : (notify n g).waiters = g.waiters.drop n := by
  induction n generalizing g with
  | zero => rfl
  | succ n ih =>
    unfold notify
    split
    · next h => simp [h]
    · next h => rw [ih, h, List.drop_succ_cons]

/-- Notifying moves waiters to the notified callers, one for one. -/
theorem notify_keeps (h : Sound cap g.available g.waiters g.places) :
    Sound cap (notify n g).available (notify n g).waiters (notify n g).places ∧
      (g.waiters = [] ∨ g.available ≤ g.places.count .notified + n →
        Passed (notify n g).available (notify n g).waiters (notify n g).places) := by
  induction n generalizing g with
  | zero => exact ⟨h, id⟩
  | succ n ih =>
    unfold notify
    split
    · next hnil => exact ⟨h, fun _ => .inl hnil⟩
    · next w rest hcons =>
      have hw : w ∈ g.waiters := hcons ▸ List.mem_cons_self
      have hnodup := hcons ▸ h.nodup
      have hnext : Sound cap g.available rest (g.places.set w .notified) := by
        refine h.unqueue hw (List.nodup_cons.mp hnodup).2 (fun j => ?_) (by decide) rfl
        rw [hcons, List.mem_cons]
        have := (List.nodup_cons.mp hnodup).1
        grind
      refine ⟨(ih hnext).1, fun hcount => (ih hnext).2 (.inr ?_)⟩
      have hset := countP_set (q := .notified) (· == .notified) ((h.queued w).mp hw)
      have hcount := hcount.resolve_left (by simp [hcons])
      rw [List.count] at hcount ⊢
      rw [show (Place.waiting == .notified) = false from rfl] at hset
      show g.available ≤ (g.places.set w .notified).countP _ + n
      simp only [beq_self_eq_true, Bool.toNat_true, Bool.toNat_false] at hset
      omega

theorem notifyAll_keeps (h : Sound cap g.available g.waiters g.places) :
    Sound cap g.notifyAll.available g.notifyAll.waiters g.notifyAll.places ∧
      Passed g.notifyAll.available g.notifyAll.waiters g.notifyAll.places :=
  ⟨(notify_keeps h).1, .inl (by rw [notifyAll, notify_waiters, List.drop_length])⟩

theorem notifyAll_not_waiting (h : Sound cap g.available g.waiters g.places) (i : Nat) :
    g.notifyAll.places[i]? ≠ some .waiting := by
  rw [Ne, ← (notifyAll_keeps h).1.queued, notifyAll, notify_waiters, List.drop_length]
  exact List.not_mem_nil

/-- A notified caller that finds itself cancelled is not the one that a free permit needs while
others wait. -/
def passesOn (token : Nat → Option Token) (g : Gate) : Label → Bool
  | .advance i => g.places[i]? != some .notified || !g.isCancelled token i || g.waiters.isEmpty ||
      g.available < g.places.count .notified
  | _ => true

/-- What a step keeps: the permits, and under a condition the notifications. -/
def Keeps (cap : Nat) (needs : Prop) (g g' : Gate) : Prop :=
  Sound cap g'.available g'.waiters g'.places ∧
    (needs → Passed g.available g.waiters g.places → Passed g'.available g'.waiters g'.places)

variable {needs : Prop}

/-- A caller that was not notified and does not wait moves on with the permits it has. -/
theorem keeps_put (h : Sound cap g.available g.waiters g.places) (hp : g.places[i]? = some p)
    (hplaces : g'.places = g.places.set i q) (ha : g'.available = g.available)
    (hw : g'.waiters = g.waiters) (hpw : p ≠ .waiting ∧ p ≠ .notified) (hqw : q ≠ .waiting)
    (hq : q.holds = p.holds) : Keeps cap needs g g' := by
  rw [Keeps, ha, hw, hplaces]
  refine ⟨h.set hp hpw.1 hqw (by rw [hq]), fun _ hpassed => passed_set hp ?_⟩
  rw [beq_eq_false_iff_ne.mpr hpw.2]
  exact hpassed

theorem keeps_enter (h : Sound cap g.available g.waiters g.places) (hp : g.places[i]? = some p)
    (hplace : p = .entering ∨ p = .notified) :
    Keeps cap (passesOn token g (.advance i) = true) g (g.enter token i) := by
  have hpw : p ≠ .waiting := by rcases hplace with rfl | rfl <;> decide
  have hph : p.holds = false := by rcases hplace with rfl | rfl <;> rfl
  have hleave (hc : g.isCancelled token i = true) :
      Keeps cap (passesOn token g (.advance i) = true) g (g.put i .leaving) := by
    refine ⟨h.set hp hpw (by decide) (by rw [hph]; rfl), fun hpass hpassed => passed_set hp ?_⟩
    rcases hplace with rfl | rfl
    · exact hpassed
    · -- a notified caller that leaves is only missed where a permit is free for it
      have hneeds : g.waiters = [] ∨ g.available < g.places.count .notified := by
        simpa [passesOn, hp, hc] using hpass
      exact hneeds
  unfold enter
  by_cases hfree : g.available = 0
  · rw [if_pos hfree]
    by_cases hc : g.isCancelled token i = true
    · rw [if_pos hc]
      exact hleave hc
    · rw [if_neg hc]
      exact ⟨h.wait hp hpw hph, fun _ _ => .inr (by rw [put, hfree]; exact Nat.zero_le _)⟩
  · rw [if_neg hfree]
    by_cases hc : g.isCancelled token i = true
    · rw [if_pos hc]
      exact hleave hc
    · rw [if_neg hc]
      have hle : g.available - 1 + 1 = g.available := Nat.succ_pred hfree
      refine ⟨h.set hp hpw (by decide) (by rw [hph]; exact hle), fun _ hpassed => passed_set hp ?_⟩
      have hone := Bool.toNat_le (p == Place.notified)
      refine hpassed.imp_right fun hcount => ?_
      show g.available - 1 + _ ≤ _
      omega

/-- A release gives its permit to the notified caller it makes. -/
theorem keeps_release {retry : Bool} (h : Sound cap g.available g.waiters g.places)
    (hp : g.places[i]? = some (.releasing retry)) (hqw : q ≠ .waiting) (hq : q.holds = false) :
    Keeps cap needs g (notify 1 { g.put i q with available := g.available + 1 }) := by
  have hset : Sound cap (g.available + 1) g.waiters (g.places.set i q) :=
    h.set hp nofun hqw (by rw [hq]; rfl)
  have hnotify := notify_keeps (g := { g.put i q with available := g.available + 1 }) (n := 1) hset
  refine ⟨hnotify.1, fun _ hpassed => hnotify.2 ?_⟩
  have hkept : Passed g.available g.waiters (g.places.set i q) := passed_set hp hpassed
  exact hkept.imp_right Nat.succ_le_succ

theorem keeps_advance (h : Sound cap g.available g.waiters g.places) (hp : g.places[i]? = some p)
    (hs : g.advance token i p = some g') :
    Keeps cap (passesOn token g (.advance i) = true) g g' := by
  cases p with
  | starting | admitted | retrying =>
    cases hs
    exact keeps_put h hp rfl rfl rfl (by decide) (by split <;> decide) (by split <;> rfl)
  | subscribing =>
    cases hs
    have hnext : Sound cap g.available g.waiters (g.places.set i .entering) :=
      h.set hp (by decide) (by decide) rfl
    have hall := notifyAll_keeps (g := g.put i .entering) hnext
    unfold subscribe
    split
    · exact keeps_put h hp rfl rfl rfl (by decide) (by decide) rfl
    · split
      · exact ⟨hall.1, fun _ _ => hall.2⟩
      · exact keeps_put h hp rfl rfl rfl (by decide) (by decide) rfl
  | entering =>
    cases hs
    exact keeps_enter h hp (.inl rfl)
  | notified =>
    cases hs
    exact keeps_enter h hp (.inr rfl)
  | leaving =>
    cases hs
    exact keeps_put h hp rfl rfl rfl (by decide) (by decide) rfl
  | releasing retry =>
    cases hs
    exact keeps_release h hp (by split <;> decide) (by split <;> rfl)
  | waiting | calling | ended => cases hs

/-- One step keeps the permits, and the notifications if it passes them on. -/
theorem step_keeps (h : Sound cap g.available g.waiters g.places) (hs : Step token g l g') :
    Keeps cap (passesOn token g l = true) g g' := by
  cases l with
  | advance i =>
    obtain ⟨p, hp, hs⟩ := Option.bind_eq_some_iff.mp hs
    exact keeps_advance h hp hs
  | timeout i =>
    obtain ⟨⟨hp, -⟩, hs⟩ := Option.ite_none_right_eq_some.mp hs
    cases hs
    have hi := (h.queued i).mpr hp
    refine ⟨h.unqueue hi (h.nodup.erase i) (fun j => ?_) (by decide) rfl, fun _ hpassed => ?_⟩
    · rw [h.nodup.mem_erase_iff, and_comm]
    · refine (passed_set hp hpassed).imp_left fun hnil => ?_
      rw [hnil] at hi
      cases hi
  | finish i outcome =>
    obtain ⟨hp, hs⟩ := Option.ite_none_right_eq_some.mp hs
    cases hs
    exact keeps_put h hp rfl rfl rfl (by decide) nofun rfl
  | cancel t =>
    unfold Step exec at hs
    dsimp only at hs
    split at hs
    · cases hs
      exact ⟨h, fun _ => id⟩
    · cases hs
      exact ⟨h, fun _ => id⟩
  | wake =>
    obtain ⟨-, hs⟩ := Option.ite_none_right_eq_some.mp hs
    cases hs
    exact ⟨(notifyAll_keeps h).1, fun _ _ => (notifyAll_keeps h).2⟩

/-! ### Runs -/

theorem sound_start (n : Nat) : Sound cap cap [] (start cap n).places := by
  refine ⟨?_, fun i => ?_, List.nodup_nil⟩
  · rw [start, List.countP_replicate]
    rfl
  · simp [start, List.getElem?_replicate]

/-- A permit is free, no notified caller has yet to run, and a caller that is not cancelled waits
without a timeout. -/
def Lost (token : Nat → Option Token) (g : Gate) : Prop :=
  0 < g.available ∧ .notified ∉ g.places ∧
    ∃ i, g.places[i]? = some .waiting ∧ g.isCancelled token i = false ∧
      (token i).all (·.subscribes) = true

/-- **The calls in flight keep to the cap and every exit gives back what it took**; no wake-up is
lost in a run whose notified callers leave no free permit to others that wait. -/
theorem gate_sound {n : Nat} (h : Run (Step token) (start cap n) trace g) :
    g.places.count .calling ≤ cap ∧ g.available + g.places.countP Place.holds = cap ∧
      (Throughout (Step token) (start cap n) (fun _ g l => passesOn token g l = true) trace →
        ¬ Lost token g) := by
  have hsound := h.invariant (I := fun g => Sound cap g.available g.waiters g.places)
    (sound_start n) fun _ _ _ hg hs => (step_keeps hg hs).1
  have hcalling : g.places.count .calling ≤ g.places.countP Place.holds :=
    List.countP_mono_left fun p _ hp => by rw [eq_of_beq hp]; rfl
  refine ⟨by have := hsound.conserved; omega, hsound.conserved, fun hC => ?_⟩
  have hpassed : Passed g.available g.waiters g.places := by
    refine (h.throughout (I := fun _ g => Sound cap g.available g.waiters g.places ∧
      Passed g.available g.waiters g.places) ⟨sound_start n, .inl rfl⟩ ?_ hC).2
    intro trace s l s' _ hI hl hs
    have hkeeps := step_keeps hI.1 hs
    exact ⟨hkeeps.1, hkeeps.2 hl hI.2⟩
  rintro ⟨hfree, hnone, i, hwaiting, -, -⟩
  rcases hpassed with hnil | hcount
  · have hi := (hsound.queued i).mpr hwaiting
    rw [hnil] at hi
    cases hi
  · rw [List.count_eq_zero.mpr hnone] at hcount
    omega

/-- The second caller polls its token, the others have none. -/
def polledToken (i : Nat) : Option Token := if i = 1 then some ⟨0, false⟩ else none

/-- The first caller takes the only permit, and gives it back when the others wait for it. -/
def handedTrace : List Label :=
  [.advance 0, .advance 0, .advance 0, .advance 1, .advance 1, .advance 1, .advance 2, .advance 2,
    .advance 2, .advance 0, .finish 0 .returned, .advance 0]

theorem gate_sound_handed : ∃ g, Run (Step polledToken) (start 1 3) handedTrace g ∧
    g.available = 1 ∧ g.places = [.ended, .notified, .waiting] ∧ ¬ Lost polledToken g := by
  obtain ⟨g, hg⟩ : ∃ g, play (exec polledToken) handedTrace (start 1 3) = some g := ⟨_, rfl⟩
  have hrun : Run (Step polledToken) (start 1 3) handedTrace g :=
    run_of_play (fun _ _ _ h => h) hg
  have hpasses : allSteps (exec polledToken) (passesOn polledToken) handedTrace (start 1 3) = true :=
    rfl
  have hlost := (gate_sound hrun).2.2 (throughout_of_allSteps (fun _ _ _ h => h) hpasses)
  cases hg
  exact ⟨_, hrun, rfl, rfl, hlost⟩

-- the caller that was notified is cancelled before it runs, and leaves
example : ∃ g, Run (Step polledToken) (start 1 3)
    (handedTrace ++ [.cancel ⟨0, false⟩, .advance 1]) g ∧ Lost polledToken g :=
  ⟨_, run_of_play (fun _ _ _ h => h) rfl, by decide, by decide, 2, rfl, rfl, rfl⟩

/-! ### Cancelled callers -/

variable {cancelled : List Token} {subscribers : List (Token × Nat)} {wakes : Nat}

/-- A caller that has subscribed is registered or cancelled, and if it waits and is cancelled, a
callback has yet to run. -/
structure Heard (token : Nat → Option Token) (cancelled : List Token)
    (subscribers : List (Token × Nat)) (wakes : Nat) (places : List Place) : Prop where
  registered : ∀ i p t, places[i]? = some p → p.subscribed = true → token i = some t →
    t.subscribes = true → t ∈ cancelled ∨ (t, i) ∈ subscribers
  woken : ∀ i t, places[i]? = some .waiting → token i = some t → t.subscribes = true →
    t ∈ cancelled → 0 < wakes

theorem Heard.set (h : Heard token cancelled subscribers wakes places)
    (hreg : q.subscribed = true → ∀ t, token i = some t → t.subscribes = true →
      t ∈ cancelled ∨ (t, i) ∈ subscribers)
    (hwait : q = .waiting → ∀ t, token i = some t → t.subscribes = true → t ∉ cancelled) :
    Heard token cancelled subscribers wakes (places.set i q) := by
  have hset {j : Nat} {r : Place} (hr : (places.set i q)[j]? = some r) :
      (j = i ∧ r = q) ∨ places[j]? = some r := by
    rw [List.getElem?_set] at hr
    grind
  refine ⟨fun j r t hr hsub ht => ?_, fun j t hr ht hsub hc => ?_⟩
  · rcases hset hr with ⟨rfl, rfl⟩ | hr
    · exact hreg hsub t ht
    · exact h.registered j r t hr hsub ht
  · rcases hset hr with ⟨rfl, hq⟩ | hr
    · exact absurd hc (hwait hq.symm t ht hsub)
    · exact h.woken j t hr ht hsub hc

/-- The callbacks of one caller are of no use to the others. -/
theorem Heard.unsubscribe (h : Heard token cancelled subscribers wakes places)
    (hq : q.subscribed = false) : Heard token cancelled (subscribers.filter (·.2 ≠ i)) wakes
      (places.set i q) := by
  have hset : Heard token cancelled subscribers wakes (places.set i q) :=
    h.set (by simp [hq]) (by rintro rfl; cases hq)
  refine ⟨fun j r t hr hsub ht hs => ?_, hset.woken⟩
  refine (hset.registered j r t hr hsub ht hs).imp_right fun hmem => ?_
  rw [List.mem_filter, decide_eq_true_eq]
  refine ⟨hmem, ?_⟩
  rintro rfl
  rw [List.getElem?_set] at hr
  grind

theorem notify_heard (h : Heard token g.cancelled g.subscribers g.wakes g.places)
    (hw : ∀ w ∈ g.waiters, ∃ p, g.places[w]? = some p ∧ p.subscribed = true) :
    Heard token (notify n g).cancelled (notify n g).subscribers (notify n g).wakes
      (notify n g).places := by
  induction n generalizing g with
  | zero => exact h
  | succ n ih =>
    unfold notify
    split
    · exact h
    · next w rest hcons =>
      obtain ⟨p, hp, hsub⟩ := hw w (hcons ▸ List.mem_cons_self)
      refine ih (h.set (fun _ t => h.registered w p t hp hsub) nofun) fun v hv => ?_
      obtain ⟨r, hr, hrsub⟩ := hw v (hcons ▸ List.mem_cons_of_mem _ hv)
      show ∃ p, (g.places.set w .notified)[v]? = some p ∧ _
      obtain ⟨hlt, -⟩ := List.getElem?_eq_some_iff.mp hp
      rw [List.getElem?_set]
      by_cases hvw : w = v
      · exact ⟨.notified, by simp [hvw, hvw ▸ hlt], rfl⟩
      · exact ⟨r, by simp [hvw, hr], hrsub⟩

theorem notify_cancelled : (notify n g).cancelled = g.cancelled := by
  induction n generalizing g with
  | zero => rfl
  | succ n ih =>
    unfold notify
    split
    · rfl
    · exact ih

theorem notify_waiting (h : g.places[i]? = some .waiting ∨ g.places[i]? = some .notified) :
    (notify n g).places[i]? = some .waiting ∨ (notify n g).places[i]? = some .notified := by
  induction n generalizing g with
  | zero => exact h
  | succ n ih =>
    unfold notify
    split
    · exact h
    · next w rest hcons =>
      refine ih ?_
      show (g.places.set w .notified)[i]? = _ ∨ (g.places.set w .notified)[i]? = _
      rw [List.getElem?_set]
      grind

theorem subscribed_of_sound (h : Sound cap available waiters places) :
    ∀ w ∈ waiters, ∃ p, places[w]? = some p ∧ p.subscribed = true :=
  fun w hw => ⟨.waiting, (h.queued w).mp hw, rfl⟩

theorem advance_heard (hsound : Sound cap g.available g.waiters g.places)
    (h : Heard token g.cancelled g.subscribers g.wakes g.places) (hp : g.places[i]? = some p)
    (hs : g.advance token i p = some g') :
    Heard token g'.cancelled g'.subscribers g'.wakes g'.places := by
  cases p with
  | starting | retrying =>
    cases hs
    exact h.set (by split <;> nofun) (by split <;> nofun)
  | subscribing =>
    cases hs
    unfold subscribe
    split
    · next hnone =>
      refine h.set (fun _ t ht hsub => ?_) nofun
      simp [ht, Option.filter, hsub] at hnone
    · next t hsome =>
      obtain ⟨ht, hsub⟩ := Option.filter_eq_some_iff.mp hsome
      split
      · next hc =>
        have hput : Heard token g.cancelled g.subscribers g.wakes (g.places.set i .entering) :=
          h.set (fun _ t' ht' _ => .inl (Option.some.inj (ht.symm.trans ht') ▸ hc)) nofun
        exact notify_heard hput (subscribed_of_sound (hsound.set hp (by decide) (by decide) rfl))
      · have hmore : Heard token g.cancelled (g.subscribers ++ [(t, i)]) g.wakes g.places :=
          ⟨fun j r t' hr hs' ht' hsub' => (h.registered j r t' hr hs' ht' hsub').imp_right
            (List.mem_append_left _), h.woken⟩
        refine hmore.set (fun _ t' ht' _ => .inr ?_) nofun
        cases ht.symm.trans ht'
        exact List.mem_append_right _ List.mem_cons_self
  | entering | notified =>
    cases hs
    have hreg := fun t => h.registered i _ t hp rfl
    have hother {r : Place} (hr : r ≠ .waiting) : Heard token g.cancelled g.subscribers g.wakes
        (g.places.set i r) := h.set (fun _ => hreg) (absurd · hr)
    unfold enter
    split
    · split
      · exact hother (by decide)
      · next hc =>
        refine h.set (fun _ => hreg) fun _ t ht _ hmem => hc ?_
        simp [isCancelled, ht, hmem]
    · split
      · exact hother (by decide)
      · exact hother (by decide)
  | leaving | admitted =>
    cases hs
    exact h.unsubscribe (by first | rfl | split <;> rfl)
  | releasing retry =>
    cases hs
    have hset : Sound cap (g.available + 1) g.waiters
        (g.places.set i (if retry then .retrying else .ended)) :=
      hsound.set hp nofun (by split <;> decide) (by split <;> rfl)
    exact notify_heard (h.set (by split <;> nofun) (by split <;> nofun)) (subscribed_of_sound hset)
  | waiting | calling | ended => cases hs

theorem step_heard (hsound : Sound cap g.available g.waiters g.places)
    (h : Heard token g.cancelled g.subscribers g.wakes g.places) (hs : Step token g l g') :
    Heard token g'.cancelled g'.subscribers g'.wakes g'.places := by
  cases l with
  | advance i =>
    obtain ⟨p, hp, hs⟩ := Option.bind_eq_some_iff.mp hs
    exact advance_heard hsound h hp hs
  | timeout i =>
    obtain ⟨⟨hp, -⟩, hs⟩ := Option.ite_none_right_eq_some.mp hs
    cases hs
    exact h.set (fun _ t => h.registered i _ t hp rfl) nofun
  | finish i outcome =>
    obtain ⟨hp, hs⟩ := Option.ite_none_right_eq_some.mp hs
    cases hs
    exact h.set nofun nofun
  | cancel t =>
    unfold Step exec at hs
    dsimp only at hs
    split at hs
    · cases hs
      exact h
    · next hnew =>
      cases hs
      refine ⟨fun i p t' hp hsub ht hs => ?_, fun i t' hp ht hs hc => ?_⟩
      · have hreg := h.registered i p t' hp hsub ht hs
        grind
      · rcases List.mem_cons.mp hc with rfl | hc
        · have hmem := (h.registered i _ t' hp rfl ht hs).resolve_left hnew
          have hpos : 0 < g.subscribers.countP (·.1 = t') :=
            List.countP_pos_iff.mpr ⟨_, hmem, by simp⟩
          show 0 < g.wakes + _
          omega
        · exact Nat.add_pos_left (h.woken i t' hp ht hs hc) _
  | wake =>
    obtain ⟨-, hs⟩ := Option.ite_none_right_eq_some.mp hs
    cases hs
    exact ⟨(notify_heard h (subscribed_of_sound hsound)).registered, fun i t hp =>
      absurd hp (notifyAll_not_waiting hsound i)⟩

/-- **A cancelled caller that has subscribed is not left waiting**: a callback has yet to run, it
wakes the caller, and the caller leaves. -/
theorem cancelled_leaves {n : Nat} (h : Run (Step token) (start cap n) trace g) :
    ∀ i t, g.places[i]? = some .waiting → token i = some t → t.subscribes = true →
      t ∈ g.cancelled → ∃ g', Step token g .wake g' ∧
        Step token g' (.advance i) (g'.put i .leaving) := by
  intro i t hp ht hsub hc
  have hstart : Heard token [] [] 0 (start cap n).places := by
    refine ⟨fun i p t hp hsub => ?_, fun i t hp => ?_⟩
    · obtain ⟨-, rfl⟩ : i < n ∧ .starting = p := by
        simpa [start, List.getElem?_replicate] using hp
      cases hsub
    · simp [start, List.getElem?_replicate] at hp
  have hboth := h.invariant (I := fun g => Sound cap g.available g.waiters g.places ∧
    Heard token g.cancelled g.subscribers g.wakes g.places) ⟨sound_start n, hstart⟩
    fun _ _ _ hI hs => ⟨(step_keeps hI.1 hs).1, step_heard hI.1 hI.2 hs⟩
  have hwakes : 0 < g.wakes := hboth.2.woken i t hp ht hsub hc
  refine ⟨_, if_pos hwakes, ?_⟩
  have hnotified : g.notifyAll.places[i]? = some .notified :=
    (notify_waiting (.inl hp)).resolve_left (notifyAll_not_waiting hboth.1 i)
  have hcancelled : g.notifyAll.isCancelled token i = true := by
    rw [isCancelled, ht, notifyAll, notify_cancelled]
    simpa using hc
  have henter : { g.notifyAll with wakes := g.wakes - 1 }.enter token i =
      { g.notifyAll with wakes := g.wakes - 1 }.put i .leaving := by
    unfold enter
    split
    · exact if_pos hcancelled
    · exact if_pos hcancelled
  show (g.notifyAll.places[i]?).bind _ = some _
  rw [hnotified]
  exact congrArg some henter

theorem cancelled_leaves_subscribed : ∃ g t, g.places = [.calling, .waiting] ∧ t ∈ g.cancelled ∧
    ∃ g', Step (fun _ => some ⟨0, true⟩) g .wake g' ∧
      Step (fun _ => some ⟨0, true⟩) g' (.advance 1) (g'.put 1 .leaving) := by
  obtain ⟨g, hg⟩ : ∃ g, play (exec fun _ => some ⟨0, true⟩) [.advance 0, .advance 0, .advance 0,
      .advance 0, .advance 1, .advance 1, .advance 1, .cancel ⟨0, true⟩] (start 1 2) = some g :=
    ⟨_, rfl⟩
  have hleaves := cancelled_leaves (run_of_play (fun _ _ _ h => h) hg) 1 ⟨0, true⟩
  cases hg
  exact ⟨_, ⟨0, true⟩, rfl, by decide, hleaves rfl rfl rfl (by decide)⟩

end Gate

end AlysisCode.ProviderLimits
