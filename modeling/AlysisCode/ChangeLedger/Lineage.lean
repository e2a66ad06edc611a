/-
Lineages over a run.

A call adds rows, moves heads, or binds one session to the owner of another.  Rows and
bindings are never taken back, and a binding grafts one root onto another: only a session
that is bound to none, and owns no checkpoint but a first baseline, is bound.  `Evolves`
lists what a call may do to the tables, and the rest is by cases on it.
-/
import AlysisCode.Library.Graph
import AlysisCode.ChangeLedger.Basic

namespace AlysisCode.ChangeLedger

open Forest Runs

variable {C : Type}

/-! ### Calls -/

/-- A transaction of one of the ledger's users. -/
inductive Call (C : Type)
  | reconcile (session : Option String)
  | capture (session kind : String) (staging : Staging C)
  | ensureBaseline (session : String) (staging : Staging C)
  | adopt (session source : String)
  | get (session checkpointId : String)

inductive Answer (C : Type)
  | reconciled
  | captured (checkpoint : Checkpoint C)
  | adopted (owner : Option String)
  | found (checkpoint : Checkpoint C)

def exec [DecidableEq C] (call : Call C) (l : Ledger C) :
    Except LedgerError (Answer C) × Ledger C :=
  match call with
  | .reconcile session =>
    let (out, l) := l.reconcileStorage session
    (out.map fun _ => .reconciled, l)
  | .capture session kind staging =>
    let (out, l) := l.capture session kind staging
    (out.map .captured, l)
  | .ensureBaseline session staging =>
    let (out, l) := l.ensureBaseline session staging
    (out.map .captured, l)
  | .adopt session source =>
    match l.adoptSession session source with
    | .ok (owner, l) => (.ok (.adopted owner), l)
    | .error e => (.error e, l)
  | .get session checkpointId => ((l.getForSession session checkpointId).map .found, l)

/-- A call with its outcome, as a step. -/
def Acts [DecidableEq C] (l : Ledger C) (e : Call C × Except LedgerError (Answer C))
    (l' : Ledger C) : Prop :=
  exec e.1 l = (e.2, l')

/-! ### The owner loop -/

variable {db' : Db C} {l : Ledger C} {lineages : List (String × String)}
  {rows : List (Checkpoint C)}

variable {source : String} {seen : List String} {current : String}

/-- The loop ends within its fuel, on any table: it visits no session twice. -/
theorem lineageOwnerFrom_isSome {fuel : Nat} (hnodup : seen.Nodup)
    (hsub : seen ⊆ lineages.map Prod.fst) (hfuel : lineages.length < fuel + seen.length) :
    (lineageOwnerFrom lineages fuel seen current).isSome = true := by
  induction fuel generalizing seen current with
  | zero =>
    have hle := (List.subperm_of_subset hnodup hsub).length_le
    rw [List.length_map] at hle
    omega
  | succ fuel ih =>
    unfold lineageOwnerFrom
    by_cases hseen : current ∈ seen
    · rw [if_pos hseen]
      rfl
    · rw [if_neg hseen]
      split
      · rfl
      · rename_i owner hlookup
        split
        · rfl
        · apply ih
          · exact List.nodup_cons.mpr ⟨hseen, hnodup⟩
          · intro x hx
            rcases List.mem_cons.mp hx with rfl | hx
            · obtain ⟨before, after, rfl, -⟩ := List.lookup_eq_some_iff.mp hlookup
              simp
            · exact hsub hx
          · rw [List.length_cons]
            omega

theorem lineageOwnerFrom_start (lineages : List (String × String)) (session : String) :
    ∃ out, lineageOwnerFrom lineages (lineages.length + 1) [] session = some out :=
  Option.isSome_iff_exists.mp (lineageOwnerFrom_isSome List.nodup_nil (List.nil_subset _) (by simp))

theorem lineageOwnerFrom_of_leads {fuel : Nat} {r : String} {out : Except LedgerError String}
    (hvalid : ∀ p ∈ lineages, validateSessionId p.2 = .ok p.2)
    (h : Leads (fun s => lineages.lookup s) current r)
    (hseen : ∀ x ∈ seen, Relation.TransGen (Edge fun s => lineages.lookup s) x current)
    (hout : lineageOwnerFrom lineages fuel seen current = some out) : out = .ok r := by
  induction h generalizing fuel seen with
  | @root a ha =>
    cases fuel with
    | zero => cases hout
    | succ fuel =>
      have hnew : a ∉ seen := fun hmem => (Leads.root ha).acyclic (hseen a hmem)
      rw [lineageOwnerFrom, if_neg hnew, ha] at hout
      exact (Option.some.inj hout).symm
  | @step a b r ha hb ih =>
    cases fuel with
    | zero => cases hout
    | succ fuel =>
      have hnew : a ∉ seen := fun hmem => (Leads.step ha hb).acyclic (hseen a hmem)
      have hb' : validateSessionId b = .ok b := by
        obtain ⟨before, after, rfl, -⟩ := List.lookup_eq_some_iff.mp ha
        exact hvalid (a, b) (by simp)
      rw [lineageOwnerFrom, if_neg hnew, ha] at hout
      simp only [hb'] at hout
      apply ih ?_ hout
      intro x hx
      rcases List.mem_cons.mp hx with rfl | hx
      · exact .single ha
      · exact .tail (hseen x hx) ha

/-! ### The tables between calls -/

/-- What is true of the tables between any two calls. -/
structure Wf (db : Db C) : Prop where
  rooted : Rooted db.parent
  /-- `PRIMARY KEY` of `session_lineages`. -/
  keys : (db.lineages.map Prod.fst).Nodup
  owners : ∀ p ∈ db.lineages, validateSessionId p.2 = .ok p.2
  /-- A lineage that was adopted has a head. -/
  headed : ∀ s r, (db.parent s).isSome = true → Leads db.parent s r → (db.head r).isSome = true
  ids : (db.checkpoints.map (·.checkpointId)).Nodup

variable {db : Db C} {s session : String} {row : Checkpoint C}

theorem Wf.lineageOwner (h : Wf db) {r : String} :
    db.lineageOwner s = .ok r ↔ Leads db.parent s r := by
  obtain ⟨r', hr'⟩ := h.rooted s
  obtain ⟨out, hout⟩ := lineageOwnerFrom_start db.lineages s
  have hok : out = .ok r' :=
    lineageOwnerFrom_of_leads h.owners hr' (by simp) hout
  have howner : db.lineageOwner s = .ok r' := by
    unfold Db.lineageOwner
    rw [hout, hok]
    rfl
  rw [howner, Except.ok.injEq]
  constructor
  · rintro rfl
    exact hr'
  · intro hr
    exact hr'.unique hr

theorem Wf.leads_valid (h : Wf db) {r : String} (hs : validateSessionId s = .ok s)
    (hr : Leads db.parent s r) : validateSessionId r = .ok r := by
  induction hr with
  | root => exact hs
  | @step a b _ ha _ ih =>
    have hlookup : db.lineages.lookup a = some b := ha
    obtain ⟨before, after, heq, -⟩ := List.lookup_eq_some_iff.mp hlookup
    have hmem : (a, b) ∈ db.lineages := by
      rw [heq]
      simp
    exact ih (h.owners (a, b) hmem)

/-- Rows are added and heads move. -/
structure Extends (db db' : Db C) : Prop where
  lineages : db'.lineages = db.lineages
  checkpoints : db.checkpoints <+: db'.checkpoints
  heads : ∀ s, (db.head s).isSome = true → (db'.head s).isSome = true
  ids : (db.checkpoints.map (·.checkpointId)).Nodup → (db'.checkpoints.map (·.checkpointId)).Nodup

/-- What a call may do to the tables. -/
inductive Evolves (db : Db C) : Db C → Prop
  | extended {db' : Db C} (h : Extends db db') : Evolves db db'
  | adopted {s t : String} (hs : db.parent s = none) (ht : db.parent t = none) (hne : s ≠ t)
      (hvalid : validateSessionId t = .ok t) (hhead : (db.head t).isSome = true)
      (hrows : adoptable (db.ownRows s) = true) :
      Evolves db { db with lineages := (s, t) :: db.lineages }

theorem Extends.refl (db : Db C) : Extends db db :=
  ⟨rfl, List.prefix_rfl, fun _ h => h, fun h => h⟩

theorem Extends.trans {db₁ db₂ db₃ : Db C} (h : Extends db₁ db₂) (h' : Extends db₂ db₃) :
    Extends db₁ db₃ where
  lineages := h'.lineages.trans h.lineages
  checkpoints := h.checkpoints.trans h'.checkpoints
  heads := fun s hs => h'.heads s (h.heads s hs)
  ids := fun hn => h'.ids (h.ids hn)

theorem Extends.parent {db' : Db C} (h : Extends db db') : db'.parent = db.parent := by
  unfold Db.parent
  rw [h.lineages]

theorem extends_of_rows (hpre : db.checkpoints <+: rows) (hrow : row ∈ rows)
    (hids : (db.checkpoints.map (·.checkpointId)).Nodup → (rows.map (·.checkpointId)).Nodup) :
    Extends db { db with
      checkpoints := rows
      heads := Function.update db.heads session (some row.checkpointId) } where
  lineages := rfl
  checkpoints := hpre
  ids := hids
  heads := by
    intro s hs
    unfold Db.head Db.checkpoint at hs ⊢
    dsimp only
    by_cases hsession : s = session
    · rw [hsession, Function.update_self, Option.bind_some, List.find?_isSome]
      exact ⟨row, hrow, beq_self_eq_true _⟩
    · rw [Function.update_of_ne hsession]
      obtain ⟨a, ha⟩ := Option.isSome_iff_exists.mp hs
      obtain ⟨id, hid, hfind⟩ := Option.bind_eq_some_iff.mp ha
      rw [hid, Option.bind_some, List.find?_isSome]
      refine ⟨a, hpre.subset (List.mem_of_find?_eq_some hfind), ?_⟩
      simpa using List.find?_some hfind

theorem head_mem (h : db.head s = some row) : row ∈ db.checkpoints := by
  obtain ⟨id, -, hfind⟩ := Option.bind_eq_some_iff.mp h
  exact List.mem_of_find?_eq_some hfind

theorem nodup_append_of_fresh (hfresh : ∀ r ∈ rows, r.checkpointId ≠ row.checkpointId)
    (hnodup : (rows.map (·.checkpointId)).Nodup) :
    ((rows ++ [row]).map (·.checkpointId)).Nodup := by
  rw [List.map_append, List.map_singleton, List.nodup_append]
  refine ⟨hnodup, List.nodup_singleton _, ?_⟩
  intro a ha b hb
  obtain ⟨r, hr, rfl⟩ := List.mem_map.mp ha
  rw [List.mem_singleton.mp hb]
  exact hfresh r hr

/-! ### What a call does to the tables -/

theorem adoptSession_ok {l' : Ledger C} {answer : Option String} (hwf : Wf l.db)
    (h : l.adoptSession session source = .ok (answer, l')) :
    ∃ s s' t, validateSessionId session = .ok s ∧ validateSessionId source = .ok s' ∧
      Leads l.db.parent s' t ∧
      (answer = none ∧ l' = l ∨ answer = some t ∧ (l.db.head t).isSome = true ∧
        (l' = l ∧ Leads l.db.parent s t ∨
          l.db.parent s = none ∧ s ≠ t ∧ adoptable (l.db.ownRows s) = true ∧
            l' = { l with db.lineages := (s, t) :: l.db.lineages })) := by
  obtain ⟨s, hs, h⟩ := bind_eq_ok.mp h
  obtain ⟨s', hs', h⟩ := bind_eq_ok.mp h
  obtain ⟨t, ht, h⟩ := bind_eq_ok.mp h
  have hleads := hwf.lineageOwner.mp ht
  refine ⟨s, s', t, hs, hs', hleads, ?_⟩
  split at h
  · obtain ⟨rfl, rfl⟩ : none = answer ∧ l = l' := by simpa using h
    exact .inl ⟨rfl, rfl⟩
  · rename_i hhead
    rw [Bool.not_eq_true, Option.isNone_eq_false_iff] at hhead
    split at h
    · obtain ⟨existing, hexisting, h⟩ := bind_eq_ok.mp h
      obtain ⟨hsame, h⟩ := guard_eq_ok.mp h
      obtain ⟨rfl, rfl⟩ : some t = answer ∧ l = l' := by simpa using h
      rw [not_not] at hsame
      subst hsame
      exact .inr ⟨rfl, hhead, .inl ⟨rfl, hwf.lineageOwner.mp hexisting⟩⟩
    · rename_i halias
      rw [Bool.not_eq_true, Option.isSome_eq_false_iff, Option.isNone_iff_eq_none] at halias
      split at h
      · rename_i hself
        obtain ⟨rfl, rfl⟩ : some t = answer ∧ l = l' := by simpa using h
        rw [hself]
        exact .inr ⟨rfl, hhead, .inl ⟨rfl, .root hleads.isRoot⟩⟩
      · rename_i hne
        obtain ⟨hrows, h⟩ := guard_eq_ok.mp h
        obtain ⟨rfl, rfl⟩ := Prod.mk.inj (Except.ok.inj h)
        rw [Bool.not_eq_false] at hrows
        exact .inr ⟨rfl, hhead, .inr ⟨halias, hne, hrows, rfl⟩⟩

section Effects

variable [DecidableEq C]

variable {l l' : Ledger C} {db' : Db C} {session : String}
  {commits : List (Commit C × List (Commit C))} {refs refs' : String → Option (List (Commit C))}

theorem recoverRows_ok {previous previous' : Option (Checkpoint C)}
    {rows rows' : List (Checkpoint C)} (hp : ∀ p, previous = some p → p ∈ rows)
    (h : recoverRows session commits previous rows = .ok (previous', rows')) :
    rows <+: rows' ∧ (∀ p, previous' = some p → p ∈ rows') ∧
      ((rows.map (·.checkpointId)).Nodup → (rows'.map (·.checkpointId)).Nodup) := by
  induction commits generalizing previous rows with
  | nil =>
    obtain ⟨rfl, rfl⟩ : previous = previous' ∧ rows = rows' := by simpa [recoverRows] using h
    exact ⟨List.prefix_rfl, hp, fun h => h⟩
  | cons commit rest ih =>
    obtain ⟨c, older⟩ := commit
    unfold recoverRows at h
    obtain ⟨-, h⟩ := guard_eq_ok.mp h
    obtain ⟨-, h⟩ := guard_eq_ok.mp h
    split at h
    · rename_i existing hfind
      obtain ⟨-, h⟩ := guard_eq_ok.mp h
      apply ih _ h
      rintro p hp'
      cases hp'
      exact List.mem_of_find?_eq_some hfind
    · rename_i hfind
      obtain ⟨hpre, hmem, hids⟩ := ih (by
        rintro p hp'
        cases hp'
        exact List.mem_append_right _ (List.mem_singleton_self _)) h
      refine ⟨(List.prefix_append _ _).trans hpre, hmem, fun hnodup => hids ?_⟩
      apply nodup_append_of_fresh ?_ hnodup
      intro r hr heq
      exact List.find?_eq_none.mp hfind r hr (by simp [heq])

theorem recoverRefCommits_extends {parent : Option (Checkpoint C)}
    (hp : ∀ p, parent = some p → p ∈ db.checkpoints)
    (h : db.recoverRefCommits session parent commits = .ok db') : Extends db db' := by
  obtain ⟨⟨previous, rows⟩, hrows, h⟩ := bind_eq_ok.mp h
  obtain ⟨hpre, hmem, hids⟩ := recoverRows_ok hp hrows
  cases previous with
  | none =>
    cases h
    refine ⟨rfl, hpre, ?_, hids⟩
    intro s hs
    obtain ⟨a, ha⟩ := Option.isSome_iff_exists.mp hs
    obtain ⟨id, hid, hfind⟩ := Option.bind_eq_some_iff.mp ha
    unfold Db.head Db.checkpoint
    rw [hid, Option.bind_some, List.find?_isSome]
    refine ⟨a, hpre.subset (List.mem_of_find?_eq_some hfind), ?_⟩
    simpa using List.find?_some hfind
  | some row =>
    cases h
    exact extends_of_rows hpre (hmem row rfl) hids

theorem reconcileSessionRef_extends (h : reconcileSessionRef db refs session = (.ok db', refs')) :
    Extends db db' := by
  unfold reconcileSessionRef at h
  split at h
  · cases h
    exact .refl db
  · cases h
    exact .refl db
  · rw [Prod.mk.injEq] at h
    exact recoverRefCommits_extends (by simp) h.1
  · rename_i head tip hhead _
    split at h
    · cases h
      exact .refl db
    · split at h
      · rw [Prod.mk.injEq] at h
        apply recoverRefCommits_extends _ h.1
        rintro p hp
        cases hp
        exact head_mem hhead
      · split at h
        · cases h
          exact .refl db
        · cases h

theorem reconcileSessions_extends {sessions : List String}
    (h : reconcileSessions sessions db refs = (.ok db', refs')) : Extends db db' := by
  induction sessions generalizing db refs with
  | nil =>
    cases h
    exact .refl _
  | cons session rest ih =>
    unfold reconcileSessions at h
    split at h
    · cases h
    · rename_i db₁ refs₁ hfirst
      exact (reconcileSessionRef_extends hfirst).trans (ih h)

theorem reconcileStorage_extends {session : Option String} {out : Except LedgerError Unit}
    (h : l.reconcileStorage session = (out, l')) :
    Extends l.db l'.db := by
  unfold Ledger.reconcileStorage at h
  split at h
  · cases h
    exact .refl l.db
  · dsimp only at h
    split at h
    · cases h
      exact .refl l.db
    · rename_i hsessions
      cases h
      exact reconcileSessions_extends hsessions

theorem captureLocked_extends {kind : Kind} {staging : Staging C}
    {out : Except LedgerError (Checkpoint C)} (h : l.captureLocked session kind staging = (out, l')) :
    Extends l.db l'.db := by
  unfold Ledger.captureLocked at h
  dsimp only at h
  split at h
  · cases h
    exact .refl l.db
  · split at h
    · cases h
      exact .refl l.db
    · cases h
      exact .refl l.db
    · split at h
      · cases h
        exact .refl l.db
      · rename_i hfresh
        cases h
        apply extends_of_rows (List.prefix_append _ _)
          (List.mem_append_right _ (List.mem_singleton_self _))
        apply nodup_append_of_fresh
        intro r hr heq
        apply hfresh
        rw [List.any_eq_true]
        exact ⟨r, hr, by simp [heq]⟩

/-- **Whatever a call does to the tables, it is one of the two.** -/
theorem exec_evolves {call : Call C} {out : Except LedgerError (Answer C)} (hwf : Wf l.db)
    (h : exec call l = (out, l')) : Evolves l.db l'.db := by
  cases call with
  | reconcile session =>
    generalize hr : l.reconcileStorage session = r at h
    obtain ⟨out', l''⟩ := r
    simp only [exec, hr, Prod.mk.injEq] at h
    rw [← h.2]
    exact .extended (reconcileStorage_extends hr)
  | capture session kind staging =>
    generalize hr : l.capture session kind staging = r at h
    obtain ⟨out', l''⟩ := r
    simp only [exec, hr, Prod.mk.injEq] at h
    rw [← h.2]
    unfold Ledger.capture at hr
    iterate 3
      split at hr
      · cases hr
        exact .extended (.refl l.db)
    exact .extended (captureLocked_extends hr)
  | ensureBaseline session staging =>
    generalize hr : l.ensureBaseline session staging = r at h
    obtain ⟨out', l''⟩ := r
    simp only [exec, hr, Prod.mk.injEq] at h
    rw [← h.2]
    unfold Ledger.ensureBaseline at hr
    iterate 3
      split at hr
      · cases hr
        exact .extended (.refl l.db)
    exact .extended (captureLocked_extends hr)
  | adopt session source =>
    unfold exec at h
    dsimp only at h
    split at h
    · rename_i answer l'' hadopt
      obtain ⟨-, rfl⟩ := Prod.mk.inj h
      obtain ⟨s, s', t, -, hs', hleads, ⟨-, rfl⟩ | ⟨-, hhead, ⟨rfl, -⟩ | ⟨hs, hne, hrows, rfl⟩⟩⟩ :=
        adoptSession_ok hwf hadopt
      · exact .extended (.refl _)
      · exact .extended (.refl _)
      · exact .adopted hs hleads.isRoot hne
          (hwf.leads_valid (validateSessionId_ok hs') hleads) hhead hrows
    · obtain ⟨-, rfl⟩ := Prod.mk.inj h
      exact .extended (.refl _)
  | get session checkpointId =>
    obtain ⟨-, rfl⟩ := Prod.mk.inj h
    exact .extended (.refl _)

end Effects

/-! ### What every call keeps -/

theorem parent_adopted {t : String} :
    ({ db with lineages := (s, t) :: db.lineages } : Db C).parent =
      Function.update db.parent s (some t) := by
  funext x
  by_cases hx : x = s
  · rw [hx, Function.update_self]
    exact List.lookup_cons_self
  · have hne : (x == s) = false := by simpa using hx
    rw [Function.update_of_ne hx]
    show List.lookup x ((s, t) :: db.lineages) = db.lineages.lookup x
    rw [List.lookup_cons, hne]

theorem Wf.empty : Wf (Ledger.empty : Ledger C).db where
  rooted := rooted_of_no_parents
  keys := List.nodup_nil
  owners := by
    intro p hp
    cases hp
  headed := by
    intro s r hs
    cases hs
  ids := List.nodup_nil

theorem Evolves.wf (h : Evolves db db') (hwf : Wf db) : Wf db' := by
  cases h with
  | extended h =>
    have hparent := h.parent
    refine ⟨?_, ?_, ?_, ?_, h.ids hwf.ids⟩
    · rw [hparent]
      exact hwf.rooted
    · rw [h.lineages]
      exact hwf.keys
    · rw [h.lineages]
      exact hwf.owners
    · rw [hparent]
      intro s r hs hr
      exact h.heads r (hwf.headed s r hs hr)
  | @adopted s t hs ht hne hvalid hhead _ =>
    refine ⟨?_, ?_, ?_, ?_, hwf.ids⟩
    · rw [parent_adopted]
      exact hwf.rooted.graft hs ht hne
    · show (s :: db.lineages.map Prod.fst).Nodup
      refine List.nodup_cons.mpr ⟨?_, hwf.keys⟩
      intro hmem
      obtain ⟨p, hp, hps⟩ := List.mem_map.mp hmem
      have hnone : db.lineages.lookup s = none := hs
      have hdiff := List.lookup_eq_none_iff.mp hnone p hp
      simp [hps] at hdiff
    · intro p hp
      rcases List.mem_cons.mp hp with rfl | hp
      · exact hvalid
      · exact hwf.owners p hp
    · rw [parent_adopted]
      intro a r' ha hr'
      obtain ⟨r, hr⟩ := hwf.rooted a
      obtain rfl := hr'.unique (hr.graft hs ht hne)
      by_cases hrs : r = s
      · rw [if_pos hrs]
        exact hhead
      · rw [if_neg hrs]
        by_cases has : a = s
        · subst has
          exact absurd (hr.eq_of_root hs) hrs
        · rw [Function.update_of_ne has] at ha
          exact hwf.headed a r ha hr

/-- The row is in the session's history: it belongs to the session's owner. -/
def Sees (db : Db C) (s : String) (row : Checkpoint C) : Prop :=
  Leads db.parent s row.sessionId ∧ row ∈ db.checkpoints

theorem not_adoptable (hrow : row ∈ db.checkpoints) (hkind : row.kind ≠ .baseline) :
    adoptable (db.ownRows row.sessionId) = false := by
  have hmem : row ∈ db.ownRows row.sessionId := List.mem_filter.mpr ⟨hrow, beq_self_eq_true _⟩
  generalize db.ownRows row.sessionId = rows at hmem
  match rows, hmem with
  | [r], hmem =>
    rw [List.mem_singleton] at hmem
    subst hmem
    simp [adoptable, hkind]
  | _ :: _ :: _, _ => rfl

/-- **No call takes a checkpoint out of a history**, unless it is a baseline. -/
theorem Evolves.sees (h : Evolves db db') (hsees : Sees db s row) (hkind : row.kind ≠ .baseline) :
    Sees db' s row := by
  cases h with
  | extended h =>
    refine ⟨?_, h.checkpoints.subset hsees.2⟩
    rw [h.parent]
    exact hsees.1
  | @adopted s' t hs ht hne _ _ hrows =>
    refine ⟨?_, hsees.2⟩
    have hother : row.sessionId ≠ s' := by
      rintro rfl
      rw [not_adoptable hsees.2 hkind] at hrows
      cases hrows
    have hgraft := hsees.1.graft hs ht hne
    rw [if_neg hother] at hgraft
    rw [parent_adopted]
    exact hgraft

/-- Two sessions share a lineage, and it has a head. -/
def Shared (db : Db C) (s s' : String) : Prop :=
  ∃ r, Leads db.parent s r ∧ Leads db.parent s' r ∧ (db.head r).isSome = true

theorem Evolves.shared {s' : String} (h : Evolves db db') (hshared : Shared db s s') :
    Shared db' s s' := by
  obtain ⟨r, hr, hr', hhead⟩ := hshared
  cases h with
  | extended h =>
    refine ⟨r, ?_, ?_, h.heads r hhead⟩
    · rw [h.parent]
      exact hr
    · rw [h.parent]
      exact hr'
  | @adopted a t ha ht hne _ hheadt _ =>
    refine ⟨if r = a then t else r, ?_, ?_, ?_⟩
    · rw [parent_adopted]
      exact hr.graft ha ht hne
    · rw [parent_adopted]
      exact hr'.graft ha ht hne
    · split
      · exact hheadt
      · exact hhead

theorem Shared.adopt {s' : String} (hwf : Wf l.db) (h : Shared l.db s s')
    (hs : validateSessionId session = .ok s) (hs' : validateSessionId source = .ok s') :
    ∃ r, l.db.lineageOwner s = .ok r ∧ l.db.lineageOwner s' = .ok r ∧
      l.adoptSession session source = .ok (some r, l) := by
  obtain ⟨r, hr, hr', hhead⟩ := h
  have howner := hwf.lineageOwner.mpr hr
  have howner' := hwf.lineageOwner.mpr hr'
  refine ⟨r, howner, howner', ?_⟩
  have hsome : (l.db.head r).isNone = false := by simpa using hhead
  unfold Ledger.adoptSession
  rw [hs, hs', ok_bind, ok_bind, howner', ok_bind, hsome, if_neg Bool.false_ne_true]
  by_cases halias : (l.db.parent s).isSome = true
  · rw [if_pos halias, howner, ok_bind, if_neg (by simp)]
  · have hroot : l.db.parent s = none := by simpa using halias
    rw [if_neg halias, if_pos (hr.eq_of_root hroot).symm]

/-- `get_for_session` finds the rows of the session's history. -/
theorem getForSession_iff {checkpointId : String} (hwf : Wf l.db) :
    l.getForSession session checkpointId = .ok row ↔
      ∃ s, validateSessionId session = .ok s ∧ Sees l.db s row ∧
        row.checkpointId = strip checkpointId := by
  constructor
  · intro h
    obtain ⟨s, hs, h⟩ := bind_eq_ok.mp h
    obtain ⟨owner, howner, h⟩ := bind_eq_ok.mp h
    split at h
    · cases h
    · rename_i found hfind
      obtain rfl := Except.ok.inj h
      have hfound : found.checkpointId = strip checkpointId ∧ found.sessionId = owner := by
        simpa using List.find?_some hfind
      refine ⟨s, hs, ⟨?_, List.mem_of_find?_eq_some hfind⟩, hfound.1⟩
      rw [hfound.2]
      exact hwf.lineageOwner.mp howner
  · rintro ⟨s, hs, ⟨hleads, hmem⟩, hid⟩
    unfold Ledger.getForSession
    rw [hs, ok_bind, hwf.lineageOwner.mpr hleads, ok_bind]
    split
    · rename_i hfind
      have hnot := List.find?_eq_none.mp hfind row hmem
      simp [hid] at hnot
    · rename_i found hfind
      have hfound : found.checkpointId = strip checkpointId ∧ found.sessionId = row.sessionId := by
        simpa using List.find?_some hfind
      have hsame : found = row :=
        List.inj_on_of_nodup_map hwf.ids (List.mem_of_find?_eq_some hfind) hmem
          (hfound.1.trans hid.symm)
      rw [hsame]

/-! ### Runs -/

section Runs

variable [DecidableEq C]

variable {l l' : Ledger C} {trace : List (Call C × Except LedgerError (Answer C))}

theorem wf_of_run (hwf : Wf l.db) (h : Run Acts l trace l') : Wf l'.db := by
  refine h.invariant (I := fun l => Wf l.db) hwf ?_
  intro l e l' hl hstep
  exact (exec_evolves hl hstep).wf hl

theorem kept_of_run {P : Db C → Prop} (hwf : Wf l.db)
    (hkeeps : ∀ db db', Evolves db db' → P db → P db') (h : Run Acts l trace l') (hl : P l.db) :
    P l'.db := by
  refine (h.invariant (I := fun l => Wf l.db ∧ P l.db) ⟨hwf, hl⟩ ?_).2
  intro l e l' ⟨hwf, hP⟩ hstep
  have hevolves := exec_evolves hwf hstep
  exact ⟨hevolves.wf hwf, hkeeps _ _ hevolves hP⟩

/-- What holds of a ledger and its future. -/
structure Guarantees (l : Ledger C) : Prop where
  /-- No session is bound twice, and none leads back to itself. -/
  functional : (l.db.lineages.map Prod.fst).Nodup
  acyclic : ∀ s, ¬ Relation.TransGen (Edge l.db.parent) s s
  /-- The owner loop ends, at a root that the session leads to. -/
  owned : ∀ s, ∃ owner,
    lineageOwnerFrom l.db.lineages (l.db.lineages.length + 1) [] s = some (.ok owner) ∧
      Leads l.db.parent s owner
  /-- An adoption that succeeded succeeds again, at once with the same owner and later with
  the owner of both, and changes nothing. -/
  repeated : ∀ session source owner l₁, l.adoptSession session source = .ok (some owner, l₁) →
    l₁.adoptSession session source = .ok (some owner, l₁) ∧ ∀ later l', Run Acts l₁ later l' →
        ∃ owner', l'.adoptSession session source = .ok (some owner', l')
  /-- A checkpoint that a session can see stays in its history, unless it is a baseline. -/
  kept : ∀ session checkpointId row, l.getForSession session checkpointId = .ok row →
    row.kind ≠ .baseline → ∀ later l', Run Acts l later l' →
      l'.getForSession session checkpointId = .ok row

/-- **Lineages stay forests, adoptions repeat, and histories are kept.** -/
theorem lineage_guarantees {trace : List (Call C × Except LedgerError (Answer C))}
    {l : Ledger C} (h : Run Acts Ledger.empty trace l) : Guarantees l := by
  have hwf : Wf l.db := wf_of_run .empty h
  refine ⟨hwf.keys, ?_, ?_, ?_, ?_⟩
  · intro s
    obtain ⟨r, hr⟩ := hwf.rooted s
    exact hr.acyclic
  · intro s
    obtain ⟨r, hr⟩ := hwf.rooted s
    obtain ⟨out, hout⟩ := lineageOwnerFrom_start l.db.lineages s
    refine ⟨r, ?_, hr⟩
    rw [hout, lineageOwnerFrom_of_leads hwf.owners hr (by simp) hout]
  · intro session source owner l₁ hadopt
    obtain ⟨s, s', t, hs, hs', hleads, ⟨hnone, -⟩ | ⟨howner, hhead, hcase⟩⟩ :=
      adoptSession_ok hwf hadopt
    · cases hnone
    obtain rfl : owner = t := Option.some.inj howner
    -- the two sessions share the owner's lineage from here on
    have hshared : Leads l₁.db.parent s owner ∧ Leads l₁.db.parent s' owner ∧
        (l₁.db.head owner).isSome = true ∧ Wf l₁.db := by
      rcases hcase with ⟨rfl, hself⟩ | ⟨hroot, hne, hrows, rfl⟩
      · exact ⟨hself, hleads, hhead, hwf⟩
      · have hgrafted : Evolves l.db { l.db with lineages := (s, owner) :: l.db.lineages } :=
          .adopted hroot hleads.isRoot hne (hwf.leads_valid (validateSessionId_ok hs') hleads)
            hhead hrows
        have hfirst := (Leads.root hroot).graft hroot hleads.isRoot hne
        have hsource := hleads.graft hroot hleads.isRoot hne
        rw [if_pos rfl] at hfirst
        rw [if_neg hne.symm] at hsource
        refine ⟨?_, ?_, hhead, hgrafted.wf hwf⟩
        · rw [parent_adopted]
          exact hfirst
        · rw [parent_adopted]
          exact hsource
    obtain ⟨hfirst, hsource, hhead₁, hwf₁⟩ := hshared
    refine ⟨?_, ?_⟩
    · obtain ⟨r, hr, -, hagain⟩ := Shared.adopt hwf₁ ⟨owner, hfirst, hsource, hhead₁⟩ hs hs'
      rw [hagain, hfirst.unique (hwf₁.lineageOwner.mp hr)]
    · intro later l' hlater
      have hstill := kept_of_run hwf₁ (fun _ _ => Evolves.shared) hlater
        ⟨owner, hfirst, hsource, hhead₁⟩
      obtain ⟨r, -, -, hagain⟩ := Shared.adopt (wf_of_run hwf₁ hlater) hstill hs hs'
      exact ⟨r, hagain⟩
  · intro session checkpointId row hget hkind later l' hlater
    obtain ⟨s, hs, hsees, hid⟩ := (getForSession_iff hwf).mp hget
    have hstill := kept_of_run (P := fun db => Sees db s row) hwf
      (fun _ _ hevolves hP => hevolves.sees hP hkind) hlater hsees
    exact (getForSession_iff (wf_of_run hwf hlater)).mpr ⟨s, hs, hstill, hid⟩

end Runs

/-! ### A chain of adoptions -/

/-- `b` adopts `a`, whose owner then adopts the lineage of `c` and takes `b` along. -/
def chainedCalls : List (Call String) :=
  [.ensureBaseline "a" (.recorded "p1" "tree"), .adopt "b" "a",
    .capture "c" "turn" (.recorded "p2" "tree"), .adopt "a" "c", .get "b" "p2",
    .capture "b" "turn" (.recorded "p3" "tree"), .adopt "c" "a", .adopt "b" "a"]

/-- Make the calls one after another, recording their outcomes. -/
def record [DecidableEq C] : List (Call C) → Ledger C →
    List (Call C × Except LedgerError (Answer C)) × Ledger C
  | [], l => ([], l)
  | call :: rest, l =>
    let next := record rest (exec call l).2
    ((call, (exec call l).1) :: next.1, next.2)

theorem run_record [DecidableEq C] (calls : List (Call C)) (l : Ledger C) :
    Run Acts l (record calls l).1 (record calls l).2 := by
  induction calls generalizing l with
  | nil => exact .nil
  | cons call rest ih => exact (Run.nil.snoc rfl).append (ih _)

def chained := record chainedCalls Ledger.empty

theorem lineage_guarantees_chained :
    Guarantees chained.2 ∧ chained.1.map (·.2.isOk) = List.replicate 8 true ∧
      chained.2.db.lineages = [("a", "c"), ("b", "a")] :=
  ⟨lineage_guarantees (run_record _ _), by decide +kernel, by decide +kernel⟩

end AlysisCode.ChangeLedger
