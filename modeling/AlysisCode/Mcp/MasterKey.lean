/-
The key that the tokens are encrypted with is created at its first use.

Any number of processes may find it missing and create one.  The key file is linked into its
place, so that the first one stays and the others take it.  An entry of the keyring and a
protected file are replaced instead: what was written with the first key is then unreadable.
That is all that can go wrong.
-/
import AlysisCode.Library.Runs
import AlysisCode.Mcp.Basic

namespace AlysisCode.Mcp.MasterKey

open Runs

variable {K : Type}

/-! ### Where keys are kept -/

/-- An entry of the keyring, or a key file. -/
inductive Cell (K : Type) where
  | missing
  /-- It is no key: not base64, of another length, or not protected on this machine. -/
  | invalid
  | holds (key : K)
  deriving DecidableEq

/-- Where a call is that needs a key. -/
inductive Phase (K : Type) where
  | idle
  /-- The keyring has no entry: the one from before the rename is looked for. -/
  | legacy (required : Bool)
  /-- The entry from before the rename is copied. -/
  | copy (cell : Cell K)
  | create
  /-- The entry is read back. -/
  | verify (key : K)
  | file (source : KeySource)
  | createFile (source : KeySource)
  | took (source : KeySource) (key : K)
  | returned

/-- The machine: its key backends, the calls of all processes, and the envelopes they have written,
each with the source it names and the key it was sealed with. -/
structure World (K : Type) where
  windows : Bool
  (current legacy dpapi filesystem : Cell K)
  calls : Nat → Phase K
  envelopes : List (KeySource × K)

variable (w : World K)

/-- The key that a reader obtains who finds none missing. -/
def World.key : KeySource → Cell K
  | .keyring =>
    match w.current with
    | .missing => w.legacy
    | cell => cell
  | .dpapi => w.dpapi
  | .filesystem => w.filesystem
  | .weakFallback => .missing

def World.cell : KeySource → Cell K
  | .filesystem => w.filesystem
  | _ => w.dpapi

/-- Whether a write is done, and whether the call raises behind it. -/
structure Fate where
  stored : Bool
  raises : Bool

inductive Op (K : Type) where
  /-- A call wants the key of the source of an envelope, or the one it prefers; `raises` says
  that the keyring cannot be read. -/
  | start (id : Nat) (wanted : Option KeySource) (raises : Bool)
  | readLegacy (id : Nat) (raises : Bool)
  | copy (id : Nat) (stored : Bool)
  | create (id : Nat) (key : K) (fate : Fate)
  | verify (id : Nat) (raises : Bool)
  | readFile (id : Nat) (raises : Bool)
  | createFile (id : Nat) (source : KeySource) (key : K) (fate : Fate)
  /-- An envelope is written with the key that was taken. -/
  | write (id : Nat)

def Op.id : Op K → Nat
  | .start id .. => id
  | .readLegacy id _ => id
  | .copy id _ => id
  | .create id .. => id
  | .verify id _ => id
  | .readFile id _ => id
  | .createFile id .. => id
  | .write id => id

/-- An operation, and the key that its call takes with it. -/
abbrev Label (K : Type) := Op K × Option (KeySource × K)

section Exec

variable [DecidableEq K]

variable (w : World K)

def World.put (id : Nat) (phase : Phase K) : World K :=
  { w with calls := Function.update w.calls id phase }

/-- The source that is preferred where the keyring cannot be used. -/
def World.fallback : KeySource := if w.windows then .dpapi else .filesystem

def World.withoutKeyring (required : Bool) : Phase K :=
  if required then .returned else .file w.fallback

def Cell.take (source : KeySource) : Cell K → Phase K
  | .holds key => .took source key
  | _ => .returned

def Phase.taken : Phase K → Option (KeySource × K)
  | .took source key => some (source, key)
  | _ => none

/-- `_read_keyring_master_key`, up to the entry from before the rename. -/
def World.readKeyring (required raises : Bool) : Phase K :=
  if raises then w.withoutKeyring required
  else
    match w.current with
    | .missing => .legacy required
    | cell => cell.take .keyring

/-- `_key_material_for_source` and `_preferred_key_material`, up to the first look. -/
def World.begin (wanted : Option KeySource) (raises : Bool) : Phase K :=
  match wanted with
  | none => w.readKeyring false raises
  | some .keyring => w.readKeyring true raises
  | some .dpapi => .file .dpapi
  | some .filesystem => .file .filesystem
  | some .weakFallback => .returned

/-- What becomes of the machine and of the call. -/
def next (op : Op K) (w : World K) : Option (World K × Phase K) :=
  match op, w.calls op.id with
  | .start _ wanted raises, .idle => some (w, w.begin wanted raises)
  | .readLegacy _ raises, .legacy required =>
    if raises then some (w, w.withoutKeyring required)
    else
      match w.legacy with
      | .missing => some (w, if required then .returned else .create)
      | cell => some (w, .copy cell)
  | .copy _ stored, .copy cell =>
    some (if stored then { w with current := cell } else w, cell.take .keyring)
  | .create _ key fate, .create =>
    some (if fate.stored then { w with current := .holds key } else w,
      if fate.raises then w.withoutKeyring false else .verify key)
  | .verify _ raises, .verify key =>
    some (w, if raises ∨ w.current ≠ .holds key then w.withoutKeyring false else .took .keyring key)
  | .readFile _ raises, .file source =>
    if raises then some (w, .returned)
    else
      match w.cell source with
      | .missing => some (w, .createFile source)
      | cell => some (w, cell.take source)
  | .createFile _ source key fate, .createFile source' =>
    if source ≠ source' then none
    else if fate.stored = false then some (w, .returned)
    else
      match source with
      | .filesystem =>
        -- the link is made where there is no file
        match w.filesystem with
        | .missing =>
          some ({ w with filesystem := .holds key },
            if fate.raises then .returned else .took .filesystem key)
        | cell => some (w, if fate.raises then .returned else cell.take .filesystem)
      | _ => some ({ w with dpapi := .holds key }, if fate.raises then .returned else .took .dpapi key)
  | .write _, .took source key =>
    some ({ w with envelopes := w.envelopes ++ [(source, key)] }, .returned)
  | _, _ => none

def Step (l : Label K) (w' : World K) : Prop :=
  ∃ m phase, next l.1 w = some (m, phase) ∧ w' = m.put l.1.id phase ∧ l.2 = phase.taken

end Exec

/-- Before the first use of a key. -/
structure World.Fresh (w : World K) : Prop where
  calls : ∀ id, w.calls id = .idle
  envelopes : w.envelopes = []

/-! ### The condition -/

def replaces : Label K → Option (KeySource × K)
  | (.create _ key fate, _) => if fate.stored then some (.keyring, key) else none
  | (.createFile _ .dpapi key fate, _) => if fate.stored then some (.dpapi, key) else none
  | _ => none

/-- Where a key is stored over what is there, no call has taken another one. -/
def Uncontested (trace : List (Label K)) (l : Label K) : Prop :=
  ∀ source key, replaces l = some (source, key) →
    ∀ l' ∈ trace, ∀ key', l'.2 = some (source, key') → key' = key

structure Readable (trace : List (Label K)) (w : World K) : Prop where
  taken : ∀ l ∈ trace, ∀ source key, l.2 = some (source, key) → w.key source = .holds key
  envelopes : ∀ envelope ∈ w.envelopes, w.key envelope.1 = .holds envelope.2

/-! ### What the calls rely on -/

/-- The entry of the keyring is missing, or copied from the one from before the rename. -/
def Adopting : Prop := w.current = .missing ∨ w.current = w.legacy

/-- What a call relies on. -/
def Phase.Sound (trace : List (Label K)) (w : World K) : Phase K → Prop
  | .legacy _ => w.legacy ≠ .missing → Adopting w
  | .copy cell => cell = w.legacy ∧ cell ≠ .missing ∧ Adopting w
  | .create => w.legacy = .missing
  | .file source => source = .dpapi ∨ source = .filesystem
  | .createFile source => source = .dpapi ∨ source = .filesystem
  | .took source key => ∃ l ∈ trace, l.2 = some (source, key)
  | _ => True

structure Sound (trace : List (Label K)) (w : World K) : Prop where
  calls : ∀ id, (w.calls id).Sound trace w
  envelopes : ∀ envelope ∈ w.envelopes, ∃ l ∈ trace, l.2 = some envelope

variable {source : KeySource} {w : World K} {phase : Phase K} {key : K} {id : Nat} {w : World K}

theorem Cell.taken_take {source' : KeySource} {cell : Cell K}
    (h : (cell.take source).taken = some (source', key)) :
    source' = source ∧ cell = .holds key := by
  cases cell with
  | missing | invalid => cases h
  | holds key' =>
    cases h
    exact ⟨rfl, rfl⟩

theorem World.taken_withoutKeyring (w : World K) (required : Bool) :
    (w.withoutKeyring required).taken = none := by
  cases required with
  | true | false => rfl

theorem World.key_of_current (h : w.current = .holds key) : w.key .keyring = .holds key := by
  rw [World.key, h]

theorem World.key_of_adopting (h : Adopting w) : w.key .keyring = w.legacy := by
  rw [World.key]
  rcases h with h | h
  · rw [h]
  · rw [h]
    cases w.legacy with
    | missing | invalid | holds => rfl

theorem World.key_of_cell (h : source = .dpapi ∨ source = .filesystem) :
    w.key source = w.cell source := by
  rcases h with rfl | rfl
  · rfl
  · rfl

variable {m : World K} {raises : Bool} {fate : Fate}

theorem readKeyring_taken {required : Bool}
    (h : (w.readKeyring required raises).taken = some (source, key)) :
    w.key source = .holds key := by
  unfold World.readKeyring at h
  split at h
  · rw [w.taken_withoutKeyring] at h
    cases h
  · split at h
    · cases h
    · obtain ⟨rfl, hcell⟩ := Cell.taken_take h
      exact World.key_of_current hcell

theorem begin_taken {wanted : Option KeySource}
    (h : (w.begin wanted raises).taken = some (source, key)) :
    w.key source = .holds key := by
  unfold World.begin at h
  split at h
  · exact readKeyring_taken h
  · exact readKeyring_taken h
  · cases h
  · cases h
  · cases h

/-- What is said of the keys behind a step. -/
structure Spec (op : Op K) (w m : World K) (phase : Phase K) : Prop where
  taken : ∀ source key, phase.taken = some (source, key) → m.key source = .holds key
  replaced : ∀ source key, replaces (op, phase.taken) = some (source, key) →
    m.key source = .holds key
  kept : ∀ source, m.key source = w.key source ∨ w.key source = .missing ∨
    ∃ key, replaces (op, phase.taken) = some (source, key)

variable {op : Op K}

theorem Spec.same
    (htaken : ∀ source key, phase.taken = some (source, key) → m.key source = .holds key)
    (hnone : replaces (op, phase.taken) = none) (hsame : m.key = w.key) : Spec op w m phase where
  taken := htaken
  replaced source key h := by
    rw [hnone] at h
    cases h
  kept source := Or.inl (by rw [hsame])

theorem spec_copy {cell : Cell K} {stored : Bool} (hcell : cell = w.legacy)
    (hadopting : Adopting w) :
    Spec (.copy id stored) w (if stored then { w with current := cell } else w)
      (cell.take .keyring) := by
  have hkey := World.key_of_adopting hadopting
  have hkey' : (if stored then { w with current := cell } else w).key .keyring = w.legacy := by
    cases stored with
    | true => exact World.key_of_adopting (w := { w with current := cell }) (.inr hcell)
    | false => exact hkey
  refine .same ?_ rfl ?_
  · intro source key htaken
    obtain ⟨rfl, rfl⟩ := Cell.taken_take htaken
    rw [hkey', hcell]
  · funext source
    cases source with
    | keyring => rw [hkey', hkey]
    | dpapi | filesystem | weakFallback =>
      cases stored with
      | true | false => rfl

theorem spec_create (hphase : phase.taken = none) :
    Spec (.create id key fate) w (if fate.stored then { w with current := .holds key } else w)
      phase := by
  cases hstored : fate.stored with
  | false =>
    refine .same ?_ ?_ rfl
    · simp [hphase]
    · simp [replaces, hstored]
  | true =>
    refine ⟨by simp [hphase], ?_, ?_⟩
    · intro source key' h
      obtain ⟨rfl, rfl⟩ : KeySource.keyring = source ∧ key = key' := by
        simpa [replaces, hstored] using h
      rfl
    · intro source
      cases source with
      | keyring => exact .inr (.inr ⟨key, by simp [replaces, hstored]⟩)
      | dpapi | filesystem | weakFallback => exact .inl rfl

theorem spec_file (hsource : source = .dpapi ∨ source = .filesystem) :
    Spec (.readFile id raises) w w ((w.cell source).take source) := by
  refine .same ?_ rfl rfl
  intro source' key htaken
  obtain ⟨rfl, hcell⟩ := Cell.taken_take htaken
  rw [World.key_of_cell hsource, hcell]

theorem spec_link (hphase : phase = .returned ∨ phase = .took .filesystem key)
    (hmissing : w.filesystem = .missing) :
    Spec (.createFile id .filesystem key fate) w { w with filesystem := .holds key } phase where
  taken source key' htaken := by
    rcases hphase with rfl | rfl
    · cases htaken
    · cases htaken
      rfl
  replaced _ _ h := by cases h
  kept source := by
    cases source with
    | filesystem => exact .inr (.inl hmissing)
    | keyring | dpapi | weakFallback => exact .inl rfl

theorem spec_protect (hphase : phase = .returned ∨ phase = .took .dpapi key)
    (hstored : fate.stored = true) :
    Spec (.createFile id .dpapi key fate) w { w with dpapi := .holds key } phase where
  taken source key' htaken := by
    rcases hphase with rfl | rfl
    · cases htaken
    · cases htaken
      rfl
  replaced source key' h := by
    obtain ⟨rfl, rfl⟩ : KeySource.dpapi = source ∧ key = key' := by
      simpa [replaces, hstored] using h
    rfl
  kept source := by
    cases source with
    | dpapi => exact .inr (.inr ⟨key, by simp [replaces, hstored]⟩)
    | keyring | filesystem | weakFallback => exact .inl rfl

variable [DecidableEq K] {trace : List (Label K)}

/-- **What a step does to the keys.** -/
theorem next_spec (hsound : (w.calls op.id).Sound trace w) (h : next op w = some (m, phase)) :
    Spec op w m phase := by
  unfold next at h
  split at h
  · -- the keyring is looked at
    cases h
    exact .same (fun _ _ => begin_taken) rfl rfl
  · split at h
    · cases h
      exact .same (by simp [World.taken_withoutKeyring]) rfl rfl
    · split at h
      · cases h
        exact .same (by split <;> simp [Phase.taken]) rfl rfl
      · cases h
        exact .same nofun rfl rfl
  · rename_i hphase
    rw [hphase] at hsound
    cases h
    exact spec_copy hsound.1 hsound.2.2
  · cases h
    refine spec_create ?_
    split
    · exact w.taken_withoutKeyring false
    · rfl
  · cases h
    refine .same ?_ rfl rfl
    intro source key htaken
    split at htaken
    · rw [World.taken_withoutKeyring] at htaken
      cases htaken
    · rename_i hboth
      cases htaken
      exact World.key_of_current (not_not.mp fun hne => hboth (.inr hne))
  · rename_i hphase
    rw [hphase] at hsound
    split at h
    · cases h
      exact .same nofun rfl rfl
    · split at h
      · cases h
        exact .same nofun rfl rfl
      · cases h
        exact spec_file hsound
  · rename_i id source key fate source' hphase
    rw [hphase] at hsound
    split at h
    · cases h
    · rename_i hsource
      obtain rfl := not_not.mp hsource
      split at h
      · rename_i hstored
        cases h
        refine .same nofun ?_ rfl
        rcases hsound with rfl | rfl
        · simp [replaces, hstored]
        · rfl
      · rename_i hstored
        rcases hsound with rfl | rfl
        · cases h
          exact spec_protect (by split <;> simp) (by simpa using hstored)
        · dsimp only at h
          split at h
          · rename_i hmissing
            cases h
            exact spec_link (by split <;> simp) hmissing
          · cases h
            refine .same ?_ rfl rfl
            intro source key htaken
            split at htaken
            · cases htaken
            · obtain ⟨rfl, hcell⟩ := Cell.taken_take htaken
              exact hcell
  · cases h
    exact .same nofun rfl rfl
  · cases h

/-! ### What the calls rely on is kept -/

section Kept

omit [DecidableEq K]

/-- What a step of a call that was in the phase leaves alone. -/
structure Frame (phase : Phase K) (w m : World K) : Prop where
  calls : m.calls = w.calls
  legacy : m.legacy = w.legacy
  current : m.current = w.current ∨ m.current = w.legacy ∨ w.legacy = .missing
  envelopes : m.envelopes = w.envelopes ∨
    ∃ envelope, phase.taken = some envelope ∧ m.envelopes = w.envelopes ++ [envelope]

theorem Frame.adopting {before : Phase K} {m : World K} (h : Frame before w m) (hlegacy : w.legacy ≠ .missing)
    (hadopting : Adopting w) : Adopting m := by
  unfold Adopting
  rw [h.legacy]
  rcases h.current with heq | heq | heq
  · rw [heq]
    exact hadopting
  · exact .inr heq
  · exact absurd heq hlegacy

theorem Phase.Sound.mono {before : Phase K} {m : World K} {phase : Phase K}
    (h : phase.Sound trace w) (hframe : Frame before w m) (l : Label K) : phase.Sound (trace ++ [l]) m := by
  cases phase with
  | legacy =>
    intro hlegacy
    rw [hframe.legacy] at hlegacy
    exact hframe.adopting hlegacy (h hlegacy)
  | copy cell =>
    obtain ⟨rfl, hmissing, hadopting⟩ := h
    exact ⟨hframe.legacy.symm, hmissing, hframe.adopting hmissing hadopting⟩
  | create => exact hframe.legacy.trans h
  | took source key =>
    obtain ⟨l', hl', htaken⟩ := h
    exact ⟨l', List.mem_append_left _ hl', htaken⟩
  | file | createFile => exact h
  | idle | verify | returned => trivial

theorem sound_take (cell : Cell K) (source : KeySource) (op : Op K) (w : World K) :
    (cell.take source).Sound (trace ++ [(op, (cell.take source).taken)]) w := by
  cases cell with
  | holds key => exact ⟨_, List.mem_append_right _ List.mem_cons_self, rfl⟩
  | missing | invalid => trivial

theorem sound_took (source : KeySource) (key : K) (op : Op K) (w : World K) :
    (Phase.took source key).Sound (trace ++ [(op, (Phase.took source key).taken)]) w :=
  ⟨_, List.mem_append_right _ List.mem_cons_self, rfl⟩

theorem sound_withoutKeyring (w m : World K) (required : Bool) :
    (w.withoutKeyring required).Sound trace m := by
  cases required with
  | true => trivial
  | false =>
    show w.fallback = .dpapi ∨ w.fallback = .filesystem
    unfold World.fallback
    split
    · exact .inl rfl
    · exact .inr rfl

theorem sound_begin (w : World K) (wanted : Option KeySource) (raises : Bool) (op : Op K) :
    (w.begin wanted raises).Sound (trace ++ [(op, (w.begin wanted raises).taken)]) w := by
  have hkeyring (required : Bool) : (w.readKeyring required raises).Sound
      (trace ++ [(op, (w.readKeyring required raises).taken)]) w := by
    unfold World.readKeyring
    split
    · exact sound_withoutKeyring w w required
    · split
      · rename_i hmissing
        exact fun _ => .inl hmissing
      · exact sound_take _ _ op w
  unfold World.begin
  split
  · exact hkeyring false
  · exact hkeyring true
  · exact .inl rfl
  · exact .inr rfl
  · trivial

theorem Frame.refl (phase : Phase K) (w : World K) : Frame phase w w :=
  ⟨rfl, rfl, .inl rfl, .inl rfl⟩

end Kept

/-- What a step leaves alone, and what the call relies on behind it. -/
theorem next_sound (hsound : (w.calls op.id).Sound trace w) (h : next op w = some (m, phase)) :
    Frame (w.calls op.id) w m ∧ phase.Sound (trace ++ [(op, phase.taken)]) m := by
  unfold next at h
  split at h
  · cases h
    exact ⟨.refl _ w, sound_begin w _ _ _⟩
  · rename_i hphase
    rw [hphase] at hsound
    split at h
    · cases h
      exact ⟨.refl _ w, sound_withoutKeyring w w _⟩
    · split at h
      · rename_i hmissing
        cases h
        refine ⟨.refl _ w, ?_⟩
        split
        · trivial
        · exact hmissing
      · rename_i hmissing
        cases h
        exact ⟨.refl _ w, rfl, hmissing, hsound hmissing⟩
  · rename_i stored cell hphase
    rw [hphase] at hsound
    obtain ⟨rfl, -, -⟩ := hsound
    cases h
    refine ⟨?_, sound_take _ _ _ _⟩
    cases stored with
    | true => exact ⟨rfl, rfl, .inr (.inl rfl), .inl rfl⟩
    | false => exact .refl _ w
  · rename_i id key fate hphase
    rw [hphase] at hsound
    cases h
    constructor
    · split
      · exact ⟨rfl, rfl, .inr (.inr hsound), .inl rfl⟩
      · exact .refl _ w
    · split
      · exact sound_withoutKeyring w _ _
      · trivial
  · cases h
    refine ⟨.refl _ w, ?_⟩
    split
    · exact sound_withoutKeyring w w _
    · exact sound_took _ _ _ _
  · rename_i hphase
    rw [hphase] at hsound
    split at h
    · cases h
      exact ⟨.refl _ w, trivial⟩
    · split at h
      · cases h
        exact ⟨.refl _ w, hsound⟩
      · cases h
        exact ⟨.refl _ w, sound_take _ _ _ _⟩
  · split at h
    · cases h
    · split at h
      · cases h
        exact ⟨.refl _ w, trivial⟩
      · split at h
        · split at h
          · cases h
            refine ⟨⟨rfl, rfl, .inl rfl, .inl rfl⟩, ?_⟩
            split
            · trivial
            · exact sound_took _ _ _ _
          · cases h
            refine ⟨.refl _ w, ?_⟩
            split
            · trivial
            · exact sound_take _ _ _ _
        · cases h
          refine ⟨⟨rfl, rfl, .inl rfl, .inl rfl⟩, ?_⟩
          split
          · trivial
          · exact sound_took _ _ _ _
  · rename_i hphase
    rw [hphase]
    cases h
    exact ⟨⟨rfl, rfl, .inl rfl, .inr ⟨_, rfl, rfl⟩⟩, trivial⟩
  · cases h


omit [DecidableEq K] in
theorem key_put (w : World K) (id : Nat) (phase : Phase K) : (w.put id phase).key = w.key := by
  funext source
  cases source with
  | keyring | dpapi | filesystem | weakFallback => rfl

theorem Sound.step {w' : World K} {l : Label K} (hsound : Sound trace w) (h : Step w l w') :
    Sound (trace ++ [l]) w' := by
  obtain ⟨op, taken⟩ := l
  obtain ⟨m, phase, hnext, rfl, rfl⟩ := h
  obtain ⟨hframe, hphase⟩ := next_sound (hsound.calls op.id) hnext
  constructor
  · intro id
    show (Function.update m.calls op.id phase id).Sound _ (m.put op.id phase)
    by_cases hid : id = op.id
    · rw [hid, Function.update_self]
      exact hphase
    · rw [Function.update_of_ne hid, hframe.calls]
      exact (hsound.calls id).mono hframe _
  · intro envelope hmem
    rcases hframe.envelopes with heq | ⟨envelope', htaken, heq⟩
    · obtain ⟨l, hl, hl'⟩ := hsound.envelopes envelope (heq ▸ hmem)
      exact ⟨l, List.mem_append_left _ hl, hl'⟩
    · have hmem' : envelope ∈ w.envelopes ++ [envelope'] := heq ▸ hmem
      rcases List.mem_append.mp hmem' with hmem' | hmem'
      · obtain ⟨l, hl, hl'⟩ := hsound.envelopes envelope hmem'
        exact ⟨l, List.mem_append_left _ hl, hl'⟩
      · rw [List.mem_singleton.mp hmem']
        have hcall := hsound.calls op.id
        cases hbefore : w.calls op.id with
        | took source key =>
          rw [hbefore] at hcall htaken
          obtain ⟨l, hl, hl'⟩ := hcall
          exact ⟨l, List.mem_append_left _ hl, hl'.trans htaken⟩
        | _ =>
          rw [hbefore] at htaken
          cases htaken

/-- **A step leaves every key that was taken readable just if it is uncontested.** -/
theorem readable_step_iff {w' : World K} {l : Label K} (hsound : Sound trace w)
    (hreadable : Readable trace w) (h : Step w l w') :
    Readable (trace ++ [l]) w' ↔ Uncontested trace l := by
  have hsound' := hsound.step h
  obtain ⟨op, taken⟩ := l
  obtain ⟨m, phase, hnext, rfl, rfl⟩ := h
  have hspec := next_spec (hsound.calls op.id) hnext
  constructor
  · intro hreadable' source key hreplaces l' hl' key' htaken
    have hkey := hspec.replaced source key hreplaces
    have hkey' := hreadable'.taken l' (List.mem_append_left _ hl') source key' htaken
    rw [key_put, hkey] at hkey'
    exact (Cell.holds.inj hkey').symm
  · intro huncontested
    have htaken : ∀ l' ∈ trace ++ [(op, phase.taken)], ∀ source key, l'.2 = some (source, key) →
        (m.put op.id phase).key source = .holds key := by
      intro l' hl' source key htaken
      rw [key_put]
      rcases List.mem_append.mp hl' with hl' | hl'
      · have hkey := hreadable.taken l' hl' source key htaken
        rcases hspec.kept source with hsame | hmissing | ⟨key', hreplaces⟩
        · rw [hsame, hkey]
        · rw [hmissing] at hkey
          cases hkey
        · rw [hspec.replaced source key' hreplaces,
            huncontested source key' hreplaces l' hl' key htaken]
      · rw [List.mem_singleton.mp hl'] at htaken
        exact hspec.taken source key htaken
    refine ⟨htaken, fun envelope hmem => ?_⟩
    obtain ⟨l', hl', htaken'⟩ := hsound'.envelopes envelope hmem
    exact htaken l' hl' envelope.1 envelope.2 htaken'

/-- **Encrypted tokens stay readable all along a run just if no key is stored over another one that
was taken.** -/
theorem readable_iff_uncontested {w₀ w : World K} (hfresh : w₀.Fresh) (hrun : Run Step w₀ trace w) :
    (∀ first m rest, trace = first ++ rest → Run Step w₀ first m → Readable first m) ↔
      Throughout Step w₀ (fun first _ l => Uncontested first l) trace := by
  have hsound (first : List (Label K)) (m : World K) (hrun : Run Step w₀ first m) :
      Sound first m := by
    refine hrun.history ?_ fun _ _ _ _ _ hsound => hsound.step
    refine ⟨fun id => ?_, fun envelope hmem => ?_⟩
    · rw [hfresh.calls id]
      trivial
    · rw [hfresh.envelopes] at hmem
      cases hmem
  refine hrun.throughout_iff ?_ ?_ ?_
  · intro s l t t' ht ht'
    obtain ⟨m, phase, hnext, rfl, -⟩ := ht
    obtain ⟨m', phase', hnext', rfl, -⟩ := ht'
    obtain ⟨rfl, rfl⟩ := Prod.mk.inj (Option.some.inj (hnext.symm.trans hnext'))
    rfl
  · refine ⟨fun l hl => ?_, fun envelope hmem => ?_⟩
    · cases hl
    · rw [hfresh.envelopes] at hmem
      cases hmem
  · intro first m l m' hrun hreadable hstep
    exact readable_step_iff (hsound first m hrun) hreadable hstep

/-! ### Two first uses at once -/

/-- A machine without a key. -/
def newMachine : World Nat where
  windows := false
  current := .missing
  legacy := .missing
  dpapi := .missing
  filesystem := .missing
  calls := fun _ => .idle
  envelopes := []

/-- Both find no entry in the keyring; the second one creates its key once the first one has used its
own. -/
def racedTrace : List (Label Nat) :=
  [(.start 0 none false, none), (.start 1 none false, none), (.readLegacy 0 false, none),
    (.readLegacy 1 false, none),
    (.create 0 7 { stored := true, raises := false }, none),
    (.verify 0 false, some (.keyring, 7)),
    (.write 0, none),
    (.create 1 8 { stored := true, raises := false }, none)]

theorem fresh_newMachine : newMachine.Fresh where
  calls _ := rfl
  envelopes := rfl

theorem run_raced : ∃ w, Run Step newMachine racedTrace w ∧ (.keyring, 7) ∈ w.envelopes ∧
    w.key .keyring = .holds 8 := by
  have hrun := ((((((((show Run Step newMachine [] newMachine from Run.nil).snoc
    (l := (.start 0 none false, none)) ⟨_, _, rfl, rfl, rfl⟩).snoc
    (l := (.start 1 none false, none)) ⟨_, _, rfl, rfl, rfl⟩).snoc
    (l := (.readLegacy 0 false, none)) ⟨_, _, rfl, rfl, rfl⟩).snoc
    (l := (.readLegacy 1 false, none)) ⟨_, _, rfl, rfl, rfl⟩).snoc
    (l := (.create 0 7 { stored := true, raises := false }, none)) ⟨_, _, rfl, rfl, rfl⟩).snoc
    (l := (.verify 0 false, some (.keyring, 7))) ⟨_, _, rfl, rfl, rfl⟩).snoc
    (l := (.write 0, none)) ⟨_, _, rfl, rfl, rfl⟩).snoc
    (l := (.create 1 8 { stored := true, raises := false }, none)) ⟨_, _, rfl, rfl, rfl⟩
  exact ⟨_, hrun, List.mem_singleton.mpr rfl, rfl⟩

/-- **The key of an envelope is replaced.** -/
theorem key_replaced : ∃ w, Run Step newMachine racedTrace w ∧
      ∃ envelope ∈ w.envelopes, w.key envelope.1 ≠ .holds envelope.2 := by
  obtain ⟨w, hrun, hmem, hkey⟩ := run_raced
  refine ⟨w, hrun, _, hmem, ?_⟩
  rw [hkey]
  decide

theorem readable_iff_uncontested_raced : ∃ w, Run Step newMachine racedTrace w ∧
      ((∀ first m rest, racedTrace = first ++ rest → Run Step newMachine first m →
        Readable first m) ↔
      Throughout Step newMachine (fun first _ l => Uncontested first l) racedTrace) := by
  obtain ⟨w, hrun, -⟩ := run_raced
  exact ⟨w, hrun, readable_iff_uncontested fresh_newMachine hrun⟩

end AlysisCode.Mcp.MasterKey
