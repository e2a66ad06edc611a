/-
Compaction removes whole chunks and nothing else.

A round cuts a chunk out of the messages and puts the memory and the pins in again.  What holds
of the messages that are not the compactor's own is proved for one round and for any number of
them: their order, the pinned prefix, the turns that are kept, and the tool transcript.
-/
import AlysisCode.Compaction.Loop
import AlysisCode.Library.Splice

namespace AlysisCode.Compaction

variable {F S : Type} {python : Python F}

/-! ### Cutting a chunk out -/

/-- What a round may cut out: turns of the user, or activity behind the first message of the
user; behind the pinned prefix, or further behind where the cacheable prefix may be protected. -/
inductive Cut (python : Python F) (pinned : Nat) (protects : Prop) (messages : List (Message F))
    (start stop : Nat) : Profile → Prop
  | chat {q : Nat} (hq : min pinned messages.length ≤ min q messages.length)
      (h : Turns python q messages start stop) : Cut python pinned protects messages start stop .chat
  | execution {q : Nat} (hq : min pinned messages.length ≤ min q messages.length)
      (hprotects : ¬protects → min q messages.length = min pinned messages.length)
      (h : Activity python q messages start stop) :
      Cut python pinned protects messages start stop .execution

/-- The list with the memory and the pins put in behind the pinned prefix. -/
structure Reinserted (python : Python F) (pinned : Nat) (messages messages' : List (Message F)) :
    Prop where
  bare : bare python messages' = bare python messages
  pinned : Compaction.bare python (messages'.take pinned) =
    (Compaction.bare python messages).take pinned

inductive Compacted (python : Python F) (profile : Profile) (pinned : Nat) (protects : Prop)
    (messages : List (Message F)) : List (Nat × List (Message F)) → List (Message F) → Prop
  | refl : Compacted python profile pinned protects messages [] messages
  | round {chunks : List (Nat × List (Message F))} {working working' : List (Message F)}
      {start stop : Nat} (h : Compacted python profile pinned protects messages chunks working)
      (hcut : Cut python pinned protects working start stop profile)
      (hworking : Reinserted python pinned (without working start stop) working') :
      Compacted python profile pinned protects messages
        (chunks ++ [(start, slice working start stop)]) working'

section Cut

variable {pinned start stop : Nat} {protects : Prop} {messages : List (Message F)}
  {profile : Profile}

theorem Cut.bounds (h : Cut python pinned protects messages start stop profile) :
    min pinned messages.length ≤ start ∧ start < stop ∧ stop ≤ messages.length := by
  cases h with
  | chat hq h =>
    have hstop := h.closes.lt
    exact ⟨hq.trans h.behind, h.lt, hstop.le⟩
  | execution hq _ h =>
    obtain ⟨user, huser, hlt, -⟩ := h.user
    exact ⟨by omega, h.lt, h.inside⟩

theorem take_slice (messages : List (Message F)) (hle : start ≤ stop) :
    messages.take start ++ slice messages start stop = messages.take stop := by
  have hstart : messages.take start = (messages.take stop).take start := by
    rw [List.take_take, min_eq_left hle]
  rw [slice, hstart, List.take_append_drop]

theorem bare_split (python : Python F) (messages : List (Message F)) (hlt : start ≤ stop) :
    bare python messages = bare python (messages.take start) ++
      (bare python (slice messages start stop) ++ bare python (messages.drop stop)) := by
  rw [← bare_append, ← bare_append, ← List.append_assoc, take_slice messages hlt,
    List.take_append_drop]

theorem bare_without (messages : List (Message F)) : bare python (without messages start stop) =
      bare python (messages.take start) ++ bare python (messages.drop stop) := bare_append _ _

theorem Cut.sublist (h : Cut python pinned protects messages start stop profile) :
    (bare python (without messages start stop)).Sublist (bare python messages) := by
  rw [bare_without, bare_split _ messages h.bounds.2.1.le]
  exact (List.Sublist.refl _).append (List.sublist_append_right _ _)

theorem Cut.perm (h : Cut python pinned protects messages start stop profile) :
    (bare python messages).Perm
      (bare python (without messages start stop) ++ bare python (slice messages start stop)) := by
  rw [bare_without, bare_split _ messages h.bounds.2.1.le, List.append_assoc]
  exact List.perm_append_comm.append_left _

theorem Cut.pinned_before (h : Cut python pinned protects messages start stop profile) :
    bare python (messages.take pinned) <+: bare python (messages.take start) := by
  have hle := h.bounds.1
  have htake : messages.take pinned ++ slice messages (min pinned messages.length) start =
      messages.take start := by
    rw [← take_slice messages hle]
    rcases le_total pinned messages.length with hlen | hlen
    · rw [min_eq_left hlen]
    · rw [min_eq_right hlen, List.take_of_length_le hlen, List.take_length]
  rw [← htake, bare_append]
  exact List.prefix_append _ _

theorem bare_drop_userAt {index : Nat} (h : UserAt python messages index) :
    ∃ user rest, bare python (messages.drop index) = user :: rest ∧ isUser python user = true := by
  obtain ⟨user, hget, huser⟩ := h
  obtain ⟨hlt, rfl⟩ := List.getElem?_eq_some_iff.mp hget
  refine ⟨messages[index], bare python (messages.drop (index + 1)), ?_, huser⟩
  rw [List.drop_eq_getElem_cons hlt]
  exact List.filter_cons_of_pos (Bool.and_eq_true_iff.mp huser).1

theorem slice_quiet (h : ∀ i, start ≤ i → i < stop → ¬UserAt python messages i) :
    ∀ msg ∈ slice messages start stop, isUser python msg = false := by
  intro msg hmsg
  obtain ⟨i, hi⟩ := List.mem_iff_getElem?.mp hmsg
  rw [slice, List.getElem?_drop, List.getElem?_take] at hi
  split at hi
  · rename_i hlt
    by_contra huser
    exact h (start + i) (by omega) hlt ⟨msg, hi, by simpa using huser⟩
  · cases hi

theorem bare_quiet {messages : List (Message F)} (h : ∀ msg ∈ messages, isUser python msg = false) :
    ∀ msg ∈ bare python messages, isUser python msg = false :=
  fun msg hmsg => h msg (List.mem_filter.mp hmsg).1

/-! ### One round -/

theorem hasValidToolTranscript_iff : hasValidToolTranscript python messages = true ↔
      scanTranscript python [] messages = some [] := beq_iff_eq

/-- **The transcript stays valid.** -/
theorem Cut.valid (h : Cut python pinned protects messages start stop profile)
    (hvalid : hasValidToolTranscript python messages = true) :
    hasValidToolTranscript python (without messages start stop) = true := by
  cases h with
  | execution _ _ h => exact h.valid
  | chat _ h =>
    rw [hasValidToolTranscript_iff] at hvalid ⊢
    have hlt := h.lt
    obtain ⟨opener, hopener, huser⟩ := h.opens
    obtain ⟨closer, hcloser, huser'⟩ := h.closes
    have hhead : (slice messages start stop).head? = some opener := by
      rw [slice, List.head?_drop, List.getElem?_take, if_pos hlt]
      exact hopener
    have hhead' : (messages.drop stop).head? = some closer := by
      rw [List.head?_drop]
      exact hcloser
    have hwhole : scanTranscript python [] (messages.take start ++
        (slice messages start stop ++ messages.drop stop)) = some [] := by
      rw [← List.append_assoc, take_slice messages hlt.le, List.take_append_drop]
      exact hvalid
    refine scanTranscript_remove ?_ ?_ ?_ ?_ hwhole
    · intro msg hmsg
      rw [hhead] at hmsg
      exact Option.some.inj hmsg ▸ huser
    · intro hnil
      rw [hnil] at hhead
      cases hhead
    · intro msg hmsg
      rw [hhead'] at hmsg
      exact Option.some.inj hmsg ▸ huser'
    · intro hnil
      rw [hnil] at hhead'
      cases hhead'

/-- **The last turn of a chat is kept.** -/
theorem Cut.last_turn (h : Cut python pinned protects messages start stop .chat)
    {user : Message F} {after : List (Message F)}
    (hafter : ∀ msg ∈ after, isUser python msg = false)
    (hlast : user :: after <:+ bare python messages) :
    user :: after <:+ bare python (without messages start stop) := by
  have hsplit := bare_split python messages h.bounds.2.1.le
  cases h with
  | chat _ h =>
    obtain ⟨closer, rest, hrest, huser⟩ := bare_drop_userAt h.closes
    obtain ⟨before, hbefore⟩ := hlast
    rw [hrest, ← List.append_assoc] at hsplit
    rw [bare_without, hrest]
    exact (Splits.last_suffix hafter huser (hbefore.trans hsplit)).trans (List.suffix_append _ _)

/-- **No message of the user is removed from an execution.** -/
theorem Cut.users (h : Cut python pinned protects messages start stop .execution) :
    (bare python (without messages start stop)).filter (isUser python) =
      (bare python messages).filter (isUser python) := by
  rw [bare_without, bare_split _ messages h.bounds.2.1.le]
  cases h with
  | execution _ _ h =>
    obtain ⟨user, -, hlt, -, -, hquiet⟩ := h.user
    have hchunk : (bare python (slice messages start stop)).filter (isUser python) = [] := by
      refine List.filter_eq_nil_iff.mpr fun msg hmsg => ?_
      have hmsg' := bare_quiet (slice_quiet fun i hi hi' => hquiet i (by omega) hi') msg hmsg
      rw [hmsg']
      exact Bool.false_ne_true
    rw [List.filter_append, List.filter_append, List.filter_append, hchunk, List.nil_append]

/-- **Without protection an execution keeps its first message of the user, and everything from
the second one on.** -/
theorem Cut.from_second (h : Cut python pinned protects messages start stop .execution)
    (hprotects : ¬protects) {front pre mid post : List (Message F)} {first second : Message F}
    (hlength : front.length = pinned) (hfront : bare python (messages.take pinned) = front)
    (hpre : ∀ msg ∈ pre, isUser python msg = false) (hfirst : isUser python first = true)
    (hsecond : isUser python second = true)
    (hmessages : bare python messages = front ++ (pre ++ first :: (mid ++ second :: post))) :
    ∃ mid', bare python (without messages start stop) =
      front ++ (pre ++ first :: (mid' ++ second :: post)) := by
  have hsplit := bare_split python messages h.bounds.2.1.le
  have hpinned : pinned ≤ messages.length := by
    have hle : front.length ≤ (messages.take pinned).length := hfront ▸ List.length_filter_le _ _
    rw [List.length_take] at hle
    omega
  cases h with
  | execution hq hsame h =>
    obtain ⟨user, huser, hlt, hat, hbefore, hquiet⟩ := h.user
    rw [hsame hprotects, min_eq_left hpinned] at huser hbefore
    obtain ⟨opener, hget, hopener⟩ := hat
    -- the messages before the chunk: the pinned ones, one of the user, and no other
    have htake : messages.take start = messages.take pinned ++ (slice messages pinned user ++
        opener :: slice messages (user + 1) start) := by
      have hone : slice messages user (user + 1) = [opener] := by
        obtain ⟨hlen, rfl⟩ := List.getElem?_eq_some_iff.mp hget
        rw [slice, List.take_succ_eq_append_getElem hlen,
          List.drop_append_of_le_length (by simp; omega), List.drop_eq_nil_of_le (by simp),
          List.nil_append]
      rw [← take_slice messages (show user + 1 ≤ start by omega),
        ← take_slice messages (show user ≤ user + 1 by omega),
        ← take_slice messages huser, hone]
      simp
    have hopen : bare python (opener :: slice messages (user + 1) start) =
        opener :: bare python (slice messages (user + 1) start) :=
      List.filter_cons_of_pos (Bool.and_eq_true_iff.mp hopener).1
    have hstart : bare python (messages.take start) = front ++ (bare python
        (slice messages pinned user) ++ opener :: bare python (slice messages (user + 1) start)) := by
      rw [htake, bare_append, bare_append, hopen, hfront]
    rw [hstart, hmessages, List.append_assoc, List.append_assoc, List.cons_append,
      List.append_cancel_left_eq] at hsplit
    obtain ⟨rfl, rfl, hrest⟩ := Splits.first_unique hpre
      (bare_quiet (slice_quiet fun i hi hi' => hbefore i hi hi')) hfirst hopener hsplit
    -- behind the message of the user there is none up to the end of the chunk
    have hx : ∀ msg ∈ bare python (slice messages (user + 1) start) ++
        bare python (slice messages start stop), isUser python msg = false := by
      intro msg hmsg
      rcases List.mem_append.mp hmsg with hmsg | hmsg
      · have hlt' := h.lt
        exact bare_quiet (slice_quiet fun i hi hi' => hquiet i (by omega) (by omega)) msg hmsg
      · exact bare_quiet (slice_quiet fun i hi hi' => hquiet i (by omega) hi') msg hmsg
    rw [← List.append_assoc] at hrest
    obtain ⟨rest, -, hrest⟩ := Splits.split_before hx hsecond hrest.symm
    refine ⟨bare python (slice messages (user + 1) start) ++ rest, ?_⟩
    rw [bare_without, hstart, hrest]
    simp

end Cut

/-! ### Putting the memory and the pins in -/

theorem upsert_messages [Json.Floats F] (python : Python F) (pinned : Nat) (messages : List (Message F))
    (summary : Members F) (pins : List (Pin S)) :
    ∃ context : List (Message F), (∀ msg ∈ context, isContext python msg = true) ∧
      (upsertContextMessages python pinned messages summary pins).messages =
        (bare python messages).take (min pinned (bare python messages).length) ++
          (context ++ (bare python messages).drop (min pinned (bare python messages).length)) := by
  unfold upsertContextMessages
  generalize bare python messages = filtered
  by_cases hpins : pins = []
  · rw [if_pos hpins]
    refine ⟨[memoryMessage summary], ?_, rfl⟩
    intro msg hmsg
    rw [List.mem_singleton.mp hmsg]
    exact isContext_memoryMessage summary
  · rw [if_neg hpins]
    refine ⟨[pinsMessage pins, memoryMessage summary], ?_, ?_⟩
    · intro msg hmsg
      rcases List.mem_cons.mp hmsg with rfl | hmsg
      · exact isContext_pinsMessage pins
      · rw [List.mem_singleton.mp hmsg]
        exact isContext_memoryMessage summary
    · have hlength : (filtered.take (min pinned filtered.length)).length =
          min pinned filtered.length := by simp
      generalize min pinned filtered.length = position at hlength ⊢
      have htake : (insertAt filtered position (pinsMessage pins)).take (position + 1) =
          filtered.take position ++ [pinsMessage pins] := by
        rw [insertAt, List.take_append, hlength, List.take_of_length_le (by omega),
          Nat.add_sub_cancel_left]
        rfl
      have hdrop : (insertAt filtered position (pinsMessage pins)).drop (position + 1) =
          filtered.drop position := by
        rw [insertAt, List.drop_append, hlength, List.drop_eq_nil_of_le (by omega),
          Nat.add_sub_cancel_left]
        rfl
      rw [insertAt, htake, hdrop]
      simp

theorem reinserted_upsert [Json.Floats F] (python : Python F) (pinned : Nat) (messages : List (Message F))
    (summary : Members F) (pins : List (Pin S)) :
    Reinserted python pinned messages
      (upsertContextMessages python pinned messages summary pins).messages where
  bare := bare_upsert pinned messages summary pins
  pinned := by
    obtain ⟨context, hcontext, heq⟩ := upsert_messages python pinned messages summary pins
    rw [heq]
    have hself (n : Nat) : bare python ((bare python messages).take n) = (bare python messages).take n :=
      bare_eq_self fun msg hmsg => by
        have hmem := (List.mem_filter.mp (List.mem_of_mem_take hmsg)).2
        simpa using hmem
    generalize bare python messages = filtered at hself ⊢
    rcases le_total pinned filtered.length with hle | hle
    · rw [min_eq_left hle, List.take_append_of_le_length (by simp [hle]), List.take_take, min_self,
        hself]
    · rw [min_eq_right hle, List.take_length, List.drop_length, List.append_nil, List.take_append,
        List.take_of_length_le hle, bare_append]
      have hfiltered := hself filtered.length
      rw [List.take_length] at hfiltered
      have hcontext' : bare python (context.take (pinned - filtered.length)) = [] :=
        List.filter_eq_nil_iff.mpr fun msg hmsg => by
          simp [hcontext msg (List.mem_of_mem_take hmsg)]
      rw [hfiltered, hcontext', List.append_nil]

/-! ### Any number of rounds -/

section Compacted

variable {profile : Profile} {pinned : Nat} {protects : Prop} {messages working : List (Message F)}
  {chunks : List (Nat × List (Message F))}

theorem Compacted.valid (h : Compacted python profile pinned protects messages chunks working)
    (hvalid : hasValidToolTranscript python messages = true) :
    hasValidToolTranscript python working = true := by
  induction h with
  | refl => exact hvalid
  | round _ hcut hworking ih =>
    have hwithout := hcut.valid ih
    rw [hasValidToolTranscript_iff, ← scanTranscript_bare] at hwithout ⊢
    rw [hworking.bare]
    exact hwithout

theorem Compacted.perm (h : Compacted python profile pinned protects messages chunks working) :
    (bare python messages).Perm (bare python working ++ bare python (chunks.flatMap (·.2))) := by
  induction h with
  | refl =>
    show (bare python messages).Perm (bare python messages ++ [])
    rw [List.append_nil]
  | @round chunks working working' start stop _ hcut hworking ih =>
    rw [List.flatMap_append, List.flatMap_singleton, bare_append, hworking.bare]
    refine ih.trans ((hcut.perm.append_right _).trans ?_)
    rw [List.append_assoc]
    exact List.perm_append_comm.append_left _

theorem Compacted.sublist (h : Compacted python profile pinned protects messages chunks working) :
    (bare python working).Sublist (bare python messages) := by
  induction h with
  | refl => exact List.Sublist.refl _
  | round _ hcut hworking ih =>
    rw [hworking.bare]
    exact hcut.sublist.trans ih

theorem pinned_step {front : List (Message F)} {start stop : Nat} {working' : List (Message F)}
    (hlength : front.length ≤ pinned)
    (hfront : front <+: bare python (working.take pinned))
    (hcut : Cut python pinned protects working start stop profile)
    (hworking : Reinserted python pinned (without working start stop) working') :
    front <+: bare python (working'.take pinned) := by
  rw [hworking.pinned, bare_without]
  have hbefore := hfront.trans hcut.pinned_before
  obtain ⟨rest, hrest⟩ := hbefore
  rw [← hrest, List.append_assoc, List.take_append, List.take_of_length_le hlength]
  exact List.prefix_append _ _

/-- **The pinned messages are kept where they are.** -/
theorem Compacted.keeps_pinned (h : Compacted python profile pinned protects messages chunks working) :
    bare python (messages.take pinned) <+: bare python (working.take pinned) := by
  have hlength : (bare python (messages.take pinned)).length ≤ pinned :=
    (List.length_filter_le _ _).trans (by simp)
  induction h with
  | refl => exact List.prefix_refl _
  | round _ hcut hworking ih => exact pinned_step hlength ih hcut hworking

theorem Compacted.last_turn (h : Compacted python .chat pinned protects messages chunks working)
    {user : Message F} {after : List (Message F)}
    (hafter : ∀ msg ∈ after, isUser python msg = false)
    (hlast : user :: after <:+ bare python messages) : user :: after <:+ bare python working := by
  generalize hprofile : Profile.chat = profile at h
  induction h with
  | refl => exact hlast
  | round _ hcut hworking ih =>
    subst hprofile
    rw [hworking.bare]
    exact hcut.last_turn hafter ih

theorem Compacted.users (h : Compacted python .execution pinned protects messages chunks working) :
    (bare python working).filter (isUser python) =
      (bare python messages).filter (isUser python) := by
  generalize hprofile : Profile.execution = profile at h
  induction h with
  | refl => rfl
  | round _ hcut hworking ih =>
    subst hprofile
    rw [hworking.bare, hcut.users, ih]

theorem Compacted.from_second
    (h : Compacted python .execution pinned protects messages chunks working)
    (hprotects : ¬protects) {front pre mid post : List (Message F)} {first second : Message F}
    (hlength : front.length = pinned) (hfront : bare python (messages.take pinned) = front)
    (hpre : ∀ msg ∈ pre, isUser python msg = false) (hfirst : isUser python first = true)
    (hsecond : isUser python second = true)
    (hmessages : bare python messages = front ++ (pre ++ first :: (mid ++ second :: post))) :
    bare python (working.take pinned) = front ∧
      ∃ mid', bare python working = front ++ (pre ++ first :: (mid' ++ second :: post)) := by
  generalize hprofile : Profile.execution = profile at h
  induction h with
  | refl => exact ⟨hfront, mid, hmessages⟩
  | round _ hcut hworking ih =>
    subst hprofile
    obtain ⟨hfront', mid', hmid'⟩ := ih
    obtain ⟨mid'', hmid''⟩ :=
      hcut.from_second hprotects hlength hfront' hpre hfirst hsecond hmid'
    refine ⟨?_, mid'', hworking.bare.trans hmid''⟩
    rw [hworking.pinned, hmid'', List.take_append_of_le_length (by omega),
      List.take_of_length_le (by omega)]

end Compacted

end AlysisCode.Compaction
