/-
Orderly calls make a right scavenge.

The record that is removed is the one that was read, and it is removed when what it names is over;
a file that is removed as no record is none.
-/
import AlysisCode.Terminal.Terminate

namespace AlysisCode.Terminal

variable {host : Host} {evo : Evolution} {r : Payload} {s : State}

/-! ### Scavenging a record -/

theorem later_unlink (name : String) (s : State) : Later s (unlinkRecord name s) :=
  Later.call s _

variable {k m : Nat} {name : String}

theorem AllRight.unlink (h : AllRight evo.toHost s) (hstored : Stored (evo.world m) name r)
    (hover : Over evo.toHost s.events s.clock r) :
    AllRight evo.toHost (unlinkRecord name s) := by
  refine h.call fun r' hr' => ?_
  obtain rfl : r = r' := by
    have hsame := evo.constant m s.clock name _ _ hstored.1 hr'.1
    cases hsame
    rfl
  exact hover.mono (List.subset_append_left _ _)

theorem later_scavengeOrphan (host : Host) (name : String) (r : Payload) (s : State) :
    Later s (scavengeOrphan host name r s).2 := by
  have hlater := later_inspect host .child r s
  unfold scavengeOrphan
  split
  · rename_i t h
    rw [h] at hlater
    have hterminate := later_terminateOwnedProcess host r t
    split
    · rename_i t' h'
      rw [h'] at hterminate
      exact (hlater.trans hterminate).trans (later_unlink name t')
    · rename_i t' h'
      rw [h'] at hterminate
      exact hlater.trans hterminate
    · rename_i t' h'
      rw [h'] at hterminate
      exact hlater.trans hterminate
  · rename_i t h
    rw [h] at hlater
    exact (hlater.trans (later_cleanup r t)).trans (later_unlink name _)
  · rename_i t h
    rw [h] at hlater
    exact hlater.trans (later_unlink name t)
  · rename_i t h
    rwa [h] at hlater

theorem scavengeOrphan_right (hstored : Stored (evo.world m) name r)
    (horphan : Orphan evo.toHost s.clock r) (hright : AllRight evo.toHost s)
    (horderly : AllOrderly evo.toHost (scavengeOrphan evo.toHost name r s).2) :
    AllRight evo.toHost (scavengeOrphan evo.toHost name r s).2 := by
  have hlater := later_inspect evo.toHost .child r s
  have hinspect := hright.inspect .child r
  have hclock := clock_lt_inspect evo.toHost .child r s
  have hevent := inspect_event evo.toHost .child r s
  unfold scavengeOrphan at horderly ⊢
  generalize hseen : inspect evo.toHost .child r s = seen at *
  obtain ⟨state, t⟩ := seen
  have horphan' : Orphan evo.toHost t.clock r := horphan.mono hlater.clock
  cases state with
  | matching =>
    dsimp only at horderly ⊢
    have hterminates := terminateOwnedProcess_terminates horphan' hinspect
    generalize terminateOwnedProcess evo.toHost r t = result at *
    obtain ⟨outcome, t'⟩ := result
    cases outcome with
    | terminated =>
      obtain ⟨hright', hover⟩ := hterminates (horderly.before (later_unlink name t'))
      exact hright'.unlink hstored (hover rfl)
    | refused | raised => exact (hterminates horderly).1
  | dead =>
    have hclean := later_cleanup r t
    have hcleanly := horderly.before (later_unlink name (cleanupOwnedResource r t))
    have hended := ended_of_inspect ⟨rfl, rfl⟩ horphan hseen (.inl rfl)
      (hcleanly _ (hclean.events hevent))
    exact (hinspect.cleanup r).unlink hstored ((hended.mono hclean.clock).over
      (uncontained_of_cleanup hstored hcleanly _ (Nat.le_refl _)) _)
  | reused =>
    have hsettled := horderly _ ((later_unlink name t).events hevent)
    have hended := ended_of_inspect ⟨rfl, rfl⟩ horphan hseen (.inr rfl) hsettled
    exact hinspect.unlink hstored (hended.over ((hsettled.2 rfl).2 t.clock hclock) _)
  | unknown => exact hinspect

theorem later_scavengeRecord (host : Host) (name : String) (s : State) :
    Later s (scavengeRecord host name s).2 := by
  have hread := Later.call s (.read s.clock name)
  unfold scavengeRecord
  dsimp only
  split
  · exact hread.trans (later_unlink name _)
  · rename_i r _
    have hinspect := later_inspect host .owner r (s.call (.read s.clock name))
    split
    · rename_i t h
      rw [h] at hinspect
      exact hread.trans hinspect
    · rename_i t h
      rw [h] at hinspect
      exact hread.trans hinspect
    · rename_i t _ _ h
      rw [h] at hinspect
      exact (hread.trans hinspect).trans (later_scavengeOrphan host name r t)

theorem not_stored_of_readRecord {n : Nat} (hkm : k ≤ m) (hmn : m ≤ n)
    (hlisted : ((evo.world k).files.lookup name).isSome)
    (horderly : Orderly evo.toHost (.read m name)) (hread : (evo.world m).readRecord name = none)
    (r : Payload) :
    ¬Stored (evo.world n) name r := by
  intro hstored
  obtain ⟨f, hf⟩ := Option.isSome_iff_exists.mp hlisted
  obtain ⟨f', hf'⟩ := Option.isSome_iff_exists.mp (evo.once k m n name f _ hkm hmn hf hstored.1)
  obtain rfl := evo.constant m n name f' _ hf' hstored.1
  have hthen : Stored (evo.world m) name r := ⟨hf', hstored.2⟩
  rw [readRecord_of_stored hthen (horderly r hthen)] at hread
  cases hread

theorem scavengeRecord_right (hk : k ≤ s.clock) (hlisted : ((evo.world k).files.lookup name).isSome)
    (hright : AllRight evo.toHost s)
    (horderly : AllOrderly evo.toHost (scavengeRecord evo.toHost name s).2) :
    AllRight evo.toHost (scavengeRecord evo.toHost name s).2 := by
  have hasked : AllRight evo.toHost (s.call (.read s.clock name)) := hright.call trivial
  unfold scavengeRecord at horderly ⊢
  cases hread : (evo.world s.clock).readRecord name with
  | none =>
    rw [hread] at horderly
    have hreadable := horderly.of_call (later_unlink name _)
    refine hasked.call fun r hr => absurd hr ?_
    exact not_stored_of_readRecord hk (Nat.le_succ _) hlisted hreadable hread r
  | some r =>
    rw [hread] at horderly
    dsimp only at horderly ⊢
    have hstored := stored_of_readRecord hread
    have hinspect := hasked.inspect .owner r
    have hevent := inspect_event evo.toHost .owner r (s.call (.read s.clock name))
    generalize hseen : inspect evo.toHost .owner r (s.call (.read s.clock name)) = seen at *
    obtain ⟨state, t⟩ := seen
    have howner (hstate : state = .dead ∨ state = .reused) (h : AllOrderly evo.toHost t) :
        Orphan evo.toHost t.clock r :=
      orphan_of_owner (Nat.le_succ _) hstored hseen hstate (h _ hevent)
    cases state with
    | matching | unknown => exact hinspect
    | dead =>
      have hbefore := horderly.before (later_scavengeOrphan evo.toHost name r t)
      exact scavengeOrphan_right hstored (howner (.inl rfl) hbefore) hinspect horderly
    | reused =>
      have hbefore := horderly.before (later_scavengeOrphan evo.toHost name r t)
      exact scavengeOrphan_right hstored (howner (.inr rfl) hbefore) hinspect horderly

/-! ### Scavenging all -/

theorem later_scavengeRecords (host : Host) (names : List String) :
    ∀ s, Later s (scavengeRecords host names s).2 := by
  induction names with
  | nil => exact Later.refl
  | cons name rest ih =>
    intro s
    have hrecord := later_scavengeRecord host name s
    unfold scavengeRecords
    split
    · rename_i t h
      rwa [h] at hrecord
    · rename_i action t h
      rw [h] at hrecord
      exact hrecord.trans (ih t)

theorem scavengeRecords_right (names : List String) : ∀ s : State, k ≤ s.clock →
      (∀ name ∈ names, ((evo.world k).files.lookup name).isSome) → AllRight evo.toHost s →
      AllOrderly evo.toHost (scavengeRecords evo.toHost names s).2 →
      AllRight evo.toHost (scavengeRecords evo.toHost names s).2 := by
  induction names with
  | nil => exact fun _ _ _ h _ => h
  | cons name rest ih =>
    intro s hk hlisted hright horderly
    have hlater := later_scavengeRecord evo.toHost name s
    have hrecord := scavengeRecord_right hk (hlisted name List.mem_cons_self) hright
    unfold scavengeRecords at horderly ⊢
    generalize scavengeRecord evo.toHost name s = result at *
    obtain ⟨action, t⟩ := result
    cases action with
    | none => exact hrecord horderly
    | some action =>
      exact ih t (hk.trans hlater.clock)
        (fun name hname => hlisted name (List.mem_cons_of_mem _ hname))
        (hrecord (horderly.before (later_scavengeRecords evo.toHost rest t))) horderly

theorem lookup_of_mem_candidates {w : World} (h : name ∈ candidates w) :
    (w.files.lookup name).isSome := by
  unfold candidates at h
  split at h
  · cases h
  · have hsorted := List.mem_of_mem_take h
    rw [List.mem_insertionSort, List.mem_filter, List.mem_map] at hsorted
    obtain ⟨⟨⟨name', f⟩, hmem, rfl⟩, -⟩ := hsorted
    exact List.lookup_isSome_iff.mpr ⟨_, hmem, by simp⟩

/-- **A scavenge whose calls are orderly signals only what orphaned records name, and removes
only records whose child, group and container are over.** -/
theorem scavengeStale_right (evo : Evolution) (clock : Nat)
    (horderly : AllOrderly evo.toHost (scavengeStale evo.toHost clock).2) :
    AllRight evo.toHost (scavengeStale evo.toHost clock).2 := by
  have hfirst : AllRight evo.toHost { clock := clock + 1 } := by
    intro e he
    cases he
  exact scavengeRecords_right _ _ (Nat.le_succ clock)
    (fun _ hname => lookup_of_mem_candidates hname) hfirst horderly

/-! ### A child alone -/

/-- A process that exits at a tick, and its record. -/
def alone (r : Payload) (p : Proc) (exit removed : Nat) : Evolution where
  world n := {
    procs := if n < exit then [p] else []
    nodup := by split <;> simp
    containers := []
    files := if n ≤ removed then [(r.recordId ++ ".json", .payload r)] else []
    polls := 1 }
  constant m n name f f' h h' := by
    dsimp only at h h'
    split at h
    · split at h'
      · exact Option.some.inj (h.symm.trans h')
      · cases h'
    · cases h
  once k m n name f f' _ hmn h h' := by
    dsimp only at h h' ⊢
    split at h'
    · rw [if_pos (by omega), h']
      rfl
    · cases h'
  ownerEnds m k n name r _ hkn _ h q hq := by
    split at hq
    · exact h q (by dsimp only; rwa [if_pos (by omega)])
    · cases hq
  childEnds m k n name r _ hkn _ h q hq := by
    split at hq
    · exact h q (by dsimp only; rwa [if_pos (by omega)])
    · cases hq
  groupEnds m k n name r _ hkn _ _ h q hq := by
    split at hq
    · exact h q (by dsimp only; rwa [if_pos (by omega)])
    · cases hq

theorem eq_of_mem_alone {p q : Proc} {exit removed n : Nat}
    (h : q ∈ ((alone r p exit removed).world n).procs) : q = p := by
  simp only [alone] at h
  split at h
  · exact List.mem_singleton.mp h
  · cases h

def aloneName : String := "0123456789abcdef0123456789abcdef.json"

/-- A record of the process 20, whose owner 10 is gone. -/
def aloneRecord (mode : String) (pgid : Option Int) : Payload where
  schemaVersion := 1
  recordId := "0123456789abcdef0123456789abcdef"
  ownerPid := 10
  ownerStartToken := "linux:1"
  childPid := 20
  childStartToken := "linux:2"
  terminationMode := mode
  posixPgid := pgid
  cleanupKind := none
  cleanupId := none

def aloneChild : Ident := ⟨20, "linux:2", "ps:2"⟩

/-- The child leads its group and exits on `SIGTERM`. -/
def obeying : Evolution :=
  alone (aloneRecord "process_group" (some 20)) ⟨aloneChild, aloneChild, fun _ => rfl⟩ 9 10

/-- The child ignores `SIGTERM`. -/
def ignoring : Evolution :=
  alone (aloneRecord "direct" none) ⟨aloneChild, ⟨5, "linux:0", "ps:0"⟩, nofun⟩ 100 8

theorem scavengeStale_obeying_events : (scavengeStale obeying.toHost 0).2.events =
      [.read 1 aloneName, .inspect 2 .owner (aloneRecord "process_group" (some 20)) .dead,
        .inspect 3 .child (aloneRecord "process_group" (some 20)) .matching,
        .inspect 5 .recheck (aloneRecord "process_group" (some 20)) .matching,
        .getpgid 7 6 (aloneRecord "process_group" (some 20)),
        .signal 8 7 (aloneRecord "process_group" (some 20)) .group .term,
        .poll 9 (aloneRecord "process_group" (some 20)),
        .unlink 10 aloneName] := by
  decide +kernel

theorem scavengeStale_ignoring_events : (scavengeStale ignoring.toHost 0).2.events =
      [.read 1 aloneName, .inspect 2 .owner (aloneRecord "direct" none) .dead,
        .inspect 3 .child (aloneRecord "direct" none) .matching,
        .inspect 5 .recheck (aloneRecord "direct" none) .matching,
        .signal 7 6 (aloneRecord "direct" none) .process .term,
        .unlink 8 aloneName] := by
  decide +kernel

/-- A terminated group is removed. -/
theorem scavengeStale_right_obeying : AllRight obeying.toHost (scavengeStale obeying.toHost 0).2 ∧
      .unlink 10 aloneName ∈ (scavengeStale obeying.toHost 0).2.events := by
  constructor
  · refine scavengeStale_right obeying 0 fun e he => ?_
    rw [scavengeStale_obeying_events] at he
    simp only [List.mem_cons, List.not_mem_nil, or_false] at he
    rcases he with rfl | rfl | rfl | rfl | rfl | rfl | rfl | rfl
    · exact fun _ _ => rfl
    · exact nofun
    · exact ⟨by simp, nofun⟩
    · trivial
    · refine ⟨fun p hp _ => hp, fun h => ?_⟩
      exact absurd h (by decide)
    · constructor
      · intro p hp _
        obtain rfl := eq_of_mem_alone hp
        exact ⟨_, hp, rfl, rfl⟩
      · intro p hp _
        obtain rfl := eq_of_mem_alone hp
        rfl
    · intro p hp _
      cases hp
    · trivial
  · rw [scavengeStale_obeying_events]
    simp

/-- A child that ignores `SIGTERM` is forgotten. -/
theorem scavengeStale_forgets :
    ¬∀ (evo : Evolution) (clock : Nat), AllRight evo.toHost (scavengeStale evo.toHost clock).2 := by
  intro h
  have hunlink : .unlink 8 aloneName ∈ (scavengeStale ignoring.toHost 0).2.events := by
    rw [scavengeStale_ignoring_events]
    simp
  have hstored : Stored (ignoring.world 8) aloneName (aloneRecord "direct" none) :=
    ⟨by decide +kernel, by decide +kernel⟩
  have hover := h ignoring 0 _ hunlink _ hstored
  have hchild : (⟨aloneChild, ⟨5, "linux:0", "ps:0"⟩, nofun⟩ : Proc) ∈ (ignoring.world 8).procs :=
    List.mem_cons_self
  obtain ⟨n, since, hmem, -⟩ := hover.child _ hchild ⟨rfl, .inl rfl⟩
  rw [scavengeStale_ignoring_events] at hmem
  simp at hmem

end AlysisCode.Terminal
