/-
One document holds the tokens of all servers.

Every call reads the document, and a call that has something to write replaces it as a whole.
There is no lock around the two, so that another call may replace the document in between.  The
records of the other servers are then those that were read: what has been written to them since
is lost.  It is lost in no other way.
-/
import AlysisCode.Library.Runs
import AlysisCode.Mcp.Basic

namespace AlysisCode.Mcp

open Runs

variable {F T : Type}

/-! ### Records -/

/-- `McpOAuthTokenRecord` -/
structure TokenRecord (T : Type) where
  accessToken : String
  tokenType : String
  expiresAt : T
  refreshToken : Option String
  grantedScopes : List String
  obtainedAt : T
  bindingId : Option String

/-- What the store does with points in time. -/
structure Datetimes (T : Type) where
  /-- `_format_datetime` -/
  format : T → String
  /-- `datetime.fromisoformat`, of a time that is aware, in UTC. -/
  parse : String → Option T

def optionalText : Option String → Json F
  | none => .null
  | some s => .str s

variable (dates : Datetimes T) {legacy : Bool}

def TokenRecord.asPayload (record : TokenRecord T) : Json F :=
  .obj <|
    [("access_token", .str record.accessToken), ("token_type", .str record.tokenType),
      ("expires_at", .str (dates.format record.expiresAt)),
      ("refresh_token", optionalText record.refreshToken),
      ("granted_scopes", .arr (record.grantedScopes.map .str)),
      ("obtained_at", .str (dates.format record.obtainedAt))] ++
    match record.bindingId with
    | none => []
    | some bindingId => [("binding_id", .str bindingId)]

def requireString : Json F → Option String
  | .str s => stripped s
  | _ => none

def optionalString : Json F → Option (Option String)
  | .null => some none
  | v => (requireString v).map some

/-- `normalize_ordered_string_list`, behind the items that are kept already. -/
def orderedStrings (kept : List String) : List (Json F) → Option (List String)
  | [] => some kept
  | .str s :: rest =>
    let cleaned := strip s
    if cleaned = "" ∨ cleaned ∈ kept then orderedStrings kept rest
    else orderedStrings (kept ++ [cleaned]) rest
  | _ :: _ => none

def normalizeOrderedStringList : Json F → Option (List String)
  | .null => some []
  | .arr items => orderedStrings [] items
  | _ => none

/-- `_OAUTH_BINDING_ID_RE.fullmatch(value) is not None` -/
def matchesBindingId (value : String) : Bool :=
  32 ≤ value.length && value.length ≤ 128 &&
    value.toList.all fun c => c.isAlphanum || c == '_' || c == '-'

def optionalBindingId : Json F → Option (Option String)
  | .null => some none
  | v => (requireString v).bind fun s => if matchesBindingId s then some (some s) else none

def parseDatetime (v : Json F) : Option T := do
  let raw ← requireString v
  dates.parse (if raw.endsWith "Z" then (raw.dropEnd 1).copy ++ "+00:00" else raw)

def TokenRecord.fromPayload : Json F → Option (TokenRecord T)
  | .obj payload => do
    let grantedScopes ← normalizeOrderedStringList (Json.get payload "granted_scopes")
    let accessToken ← requireString (Json.get payload "access_token")
    let tokenType ← requireString (Json.get payload "token_type")
    let expiresAt ← parseDatetime dates (Json.get payload "expires_at")
    let refreshToken ← optionalString (Json.get payload "refresh_token")
    let obtainedAt ← parseDatetime dates (Json.get payload "obtained_at")
    let bindingId ← optionalBindingId (Json.get payload "binding_id")
    return { accessToken, tokenType, expiresAt, refreshToken, grantedScopes, obtainedAt, bindingId }
  | _ => none

/-! ### The document -/

abbrev Payload (F : Type) := List (String × Json F)

/-- What the file holds. -/
inductive Stored (F : Type) where
  | absent
  /-- No JSON, or no document of either format. -/
  | damaged
  | legacy (payload : Payload F)
  | envelope (version : Int) (source : KeySource) (payload : Payload F)

def currentEnvelopeVersion : Int := 2

def allowedKeySources (version : Int) : List KeySource :=
  if version = 1 then [.keyring, .weakFallback, .dpapi] else [.keyring, .filesystem, .dpapi]

/-- `_validate_envelope` -/
def validEnvelope (version : Int) (source : KeySource) : Bool :=
  1 ≤ version && version ≤ currentEnvelopeVersion && source ∈ allowedKeySources version

/-- `_maybe_rewrite_envelope_after_read`: the source of the key the envelope is written anew with,
if it is; `preferred` is the one that can be had. -/
def rotation (version : Int) (source : KeySource) (preferred : Option KeySource) :
    Option KeySource :=
  if currentEnvelopeVersion ≤ version ∧ source = .keyring then none
  else
    preferred.bind fun preferred =>
      if currentEnvelopeVersion ≤ version ∧ preferred = source then none
      else if preferred ∈ allowedKeySources currentEnvelopeVersion then some preferred
      else none

/-- The names of `_load_store_payload`, in their canonical form. -/
def normalizePayload (raw : Payload F) : Option (Payload F) :=
  raw.foldlM (fun normalized entry =>
    (normalizeServerId entry.1).map fun serverId => Json.assign normalized serverId entry.2) []

variable (file : Stored F)

def recordOf (serverId : String) : Option (Json F) :=
  match file with
  | .absent => none
  | .damaged => none
  | .legacy raw => (normalizePayload raw).bind (·.lookup serverId)
  | .envelope _ _ raw => (normalizePayload raw).bind (·.lookup serverId)

/-! ### Calls -/

/-- A call on the store, with the canonical name of its server. -/
inductive Call (T : Type) where
  | load (serverId : String)
  | save (serverId : String) (record : TokenRecord T)
  | delete (serverId : String)
  | list

/-- `_canonical_server_id` -/
def Call.canonical : Call T → Option (Call T)
  | .load serverId => (normalizeServerId serverId).map .load
  | .save serverId record => (normalizeServerId serverId).map (.save · record)
  | .delete serverId => (normalizeServerId serverId).map .delete
  | .list => some .list

/-- What a call writes: the record of its server, or the document as it was read. -/
inductive Effect (F : Type) where
  | saved (serverId : String) (record : Json F)
  | deleted (serverId : String)
  | migrated

def Effect.apply (payload : Payload F) : Effect F → Payload F
  | .saved serverId record => Json.assign payload serverId record
  | .deleted serverId => Json.remove payload serverId
  | .migrated => payload

def migration (legacy : Bool) : Option (Effect F) := if legacy then some .migrated else none

/-- What a call writes behind what it read, if anything. -/
def Call.effect (payload : Payload F) (legacy : Bool) : Call T → Option (Effect F)
  | .load serverId =>
    match payload.lookup serverId with
    | none => migration legacy
    | some .null => migration legacy
    | some record =>
      if (TokenRecord.fromPayload dates record).isSome then migration legacy else none
  | .save serverId record => some (.saved serverId (record.asPayload dates))
  | .delete serverId =>
    if (payload.lookup serverId).isSome then some (.deleted serverId) else migration legacy
  | .list => migration legacy

inductive Phase (F T : Type) where
  | idle
  /-- It writes what it read with another key. -/
  | rotating (call : Call T) (source : KeySource) (raw : Payload F)
  | loaded (call : Call T) (payload : Payload F) (legacy : Bool)
  | returned

/-- The file, and the calls of all threads and processes. -/
structure World (F T : Type) where
  file : Stored F
  calls : Nat → Phase F T

def World.start : World F T where
  file := file
  calls := fun _ => .idle

/-- What becomes of a write: the file is replaced or not.  An error that is raised behind that
changes nothing. -/
inductive WriteFate where
  | fails
  | published (source : KeySource)

inductive Op (T : Type) where
  /-- A call reads the file; `opens` says whether its key opens the envelope, and `preferred` which
  key can be had. -/
  | read (id : Nat) (call : Call T) (opens : Bool) (preferred : Option KeySource)
  | rotate (id : Nat) (published : Bool)
  | finish (id : Nat) (fate : WriteFate)

def Op.id : Op T → Nat
  | .read id .. => id
  | .rotate id _ => id
  | .finish id _ => id

/-- An operation, and what a call that finished with it has written. -/
abbrev Label (F T : Type) := Op T × Option (Effect F)

variable (w : World F T) {call' : Call T}

def World.put (id : Nat) (phase : Phase F T) : World F T :=
  { w with calls := Function.update w.calls id phase }

/-- Behind the read: the names are brought to their canonical form, or an error is raised. -/
def afterRead (call : Call T) (legacy : Bool) (raw : Payload F) : Phase F T :=
  match normalizePayload raw with
  | none => .returned
  | some payload => .loaded call payload legacy

/-- `_load_store_payload`, up to where the envelope is written anew. -/
def loadStorePayload (call : Call T) (opens : Bool) (preferred : Option KeySource) :
    Stored F → Phase F T
  | .absent => .loaded call [] false
  | .damaged => .returned
  | .legacy raw => afterRead call true raw
  | .envelope version source raw =>
    if validEnvelope version source ∧ opens then
      match rotation version source preferred with
      | some source => .rotating call source raw
      | none => afterRead call false raw
    else .returned

def exec (op : Op T) (w : World F T) : Option (World F T × Option (Effect F)) :=
  match op, w.calls op.id with
  | .read id call opens preferred, .idle =>
    match call.canonical with
    | none => some (w.put id .returned, none)
    | some call => some (w.put id (loadStorePayload call opens preferred w.file), none)
  | .rotate id published, .rotating call source raw =>
    let file := if published then .envelope currentEnvelopeVersion source raw else w.file
    some ({ w.put id (afterRead call false raw) with file := file }, none)
  | .finish id fate, .loaded call payload legacy =>
    match call.effect dates payload legacy, fate with
    | some effect, .published source =>
      if source ∈ allowedKeySources currentEnvelopeVersion then
        some ({ w.put id .returned with
          file := .envelope currentEnvelopeVersion source (effect.apply payload) }, some effect)
      else some (w.put id .returned, none)
    | _, _ => some (w.put id .returned, none)
  | _, _ => none

def Step (l : Label F T) (w' : World F T) : Prop :=
  exec dates l.1 w = some (w', l.2)

/-! ### What is written -/

def Effect.record (serverId : String) : Effect F → Option (Option (Json F))
  | .saved serverId' record => if serverId' = serverId then some (some record) else none
  | .deleted serverId' => if serverId' = serverId then some none else none
  | .migrated => none

/-- The record that a call has written, or deleted, for the server. -/
def recorded (serverId : String) (l : Label F T) : Option (Option (Json F)) :=
  l.2.bind (Effect.record serverId)

/-- The step writes the record of the server as it was read. -/
def writesBack (serverId : String) (l : Label F T) : Bool :=
  match l with
  | (.rotate _ published, _) => published
  | (_, some effect) => (effect.record serverId).isNone
  | _ => false

def Phase.seen (serverId : String) : Phase F T → Option (Json F)
  | .rotating _ _ raw => (normalizePayload raw).bind (·.lookup serverId)
  | .loaded _ payload _ => payload.lookup serverId
  | _ => none

/-- What a step writes back is still what is stored: no other call has changed it since it was
read. -/
def Undisturbed (l : Label F T) : Prop :=
  ∀ serverId, writesBack serverId l = true →
    recordOf w.file serverId = (w.calls l.1.id).seen serverId

/-! ### Canonical documents -/

/-- A document whose names are canonical, each of them there once. -/
structure Normal (payload : Payload F) : Prop where
  canonical : ∀ entry ∈ payload, Canonical entry.1
  nodup : (payload.map (·.1)).Nodup

theorem normal_nil : Normal ([] : Payload F) where
  canonical _ h := by cases h
  nodup := List.nodup_nil

variable {payload : Payload F} {serverId : String} {call : Call T} {w : World F T}
  {dates : Datetimes T}

theorem Normal.assign (h : Normal payload) (hserver : Canonical serverId) (record : Json F) :
    Normal (Json.assign payload serverId record) where
  canonical entry hentry := by
    rcases Json.mem_assign hentry with hentry | rfl
    · exact h.canonical entry hentry
    · exact hserver
  nodup := Json.nodup_assign h.nodup

theorem Normal.remove (h : Normal payload) (serverId : String) :
    Normal (Json.remove payload serverId) where
  canonical entry hentry := h.canonical entry (List.mem_filter.mp hentry).1
  nodup := (List.filter_sublist.map _).nodup h.nodup

theorem foldlM_normal {raw normalized : Payload F} (hnormal : Normal normalized)
    (h : raw.foldlM (fun normalized entry => (normalizeServerId entry.1).map fun serverId =>
      Json.assign normalized serverId entry.2) normalized = some payload) : Normal payload := by
  induction raw generalizing normalized with
  | nil =>
    cases h
    exact hnormal
  | cons entry rest ih =>
    rw [List.foldlM_cons] at h
    obtain ⟨next, hnext, h⟩ := Option.bind_eq_some_iff.mp h
    obtain ⟨serverId, hserver, rfl⟩ := Option.map_eq_some_iff.mp hnext
    exact ih (hnormal.assign (canonical_of_normalize hserver) entry.2) h

theorem normal_of_normalize {raw : Payload F} (h : normalizePayload raw = some payload) :
    Normal payload := foldlM_normal normal_nil h

/-- A canonical document is left as it is. -/
theorem Normal.normalize_eq (h : Normal payload) : normalizePayload payload = some payload := by
  have hfold : ∀ rest normalized : Payload F, Normal (normalized ++ rest) →
      rest.foldlM (fun normalized entry => (normalizeServerId entry.1).map fun serverId =>
        Json.assign normalized serverId entry.2) normalized = some (normalized ++ rest) := by
    intro rest
    induction rest with
    | nil =>
      intro normalized _
      rw [List.append_nil]
      rfl
    | cons entry rest ih =>
      intro normalized hboth
      have hcanonical : normalizeServerId entry.1 = some entry.1 :=
        hboth.canonical entry (by simp)
      have hnew : entry.1 ∉ normalized.map (·.1) := by
        have hnodup := hboth.nodup
        rw [List.map_append, List.map_cons, List.nodup_append] at hnodup
        exact fun hmem => hnodup.2.2 entry.1 hmem entry.1 List.mem_cons_self rfl
      have hsplit : normalized ++ entry :: rest = (normalized ++ [entry]) ++ rest := by simp
      rw [List.foldlM_cons, hcanonical, Option.map_some, Json.assign_of_notMem hnew]
      rw [hsplit] at hboth ⊢
      exact ih (normalized ++ [entry]) hboth
  exact hfold payload [] h

theorem recordOf_normal (h : Normal payload) (version : Int) (source : KeySource)
    (serverId : String) :
    recordOf (.envelope version source payload) serverId = payload.lookup serverId := by
  rw [recordOf, h.normalize_eq, Option.bind_some]

/-! ### One step -/

/-- What a call has read is in its canonical form, and so is its name. -/
def Phase.Sound : Phase F T → Prop
  | .rotating call _ _ => call.canonical = some call
  | .loaded call payload _ => call.canonical = some call ∧ Normal payload
  | _ => True

def Sound (w : World F T) : Prop := ∀ id, (w.calls id).Sound

theorem canonical_map (make : String → Call T)
    (hmake : ∀ name, (make name).canonical = (normalizeServerId name).map make)
    (h : (make serverId).canonical = some call) : call.canonical = some call := by
  rw [hmake] at h
  obtain ⟨name, hname, rfl⟩ := Option.map_eq_some_iff.mp h
  have hcanonical : normalizeServerId name = some name := canonical_of_normalize hname
  rw [hmake, hcanonical, Option.map_some]

theorem canonical_canonical (h : call.canonical = some call') : call'.canonical = some call' := by
  cases call with
  | load => exact canonical_map .load (fun _ => rfl) h
  | save serverId record => exact canonical_map (.save · record) (fun _ => rfl) h
  | delete => exact canonical_map .delete (fun _ => rfl) h
  | list =>
    cases h
    rfl

theorem sound_afterRead (h : call.canonical = some call) (legacy : Bool) (raw : Payload F) :
    (afterRead call legacy raw).Sound := by
  unfold afterRead
  split
  · trivial
  · rename_i payload hpayload
    exact ⟨h, normal_of_normalize hpayload⟩

theorem sound_loadStorePayload (h : call.canonical = some call) (opens : Bool)
    (preferred : Option KeySource) (file : Stored F) :
    (loadStorePayload call opens preferred file).Sound := by
  cases file with
  | absent => exact ⟨h, normal_nil⟩
  | damaged => trivial
  | legacy raw => exact sound_afterRead h true raw
  | envelope version source raw =>
    unfold loadStorePayload
    dsimp only
    split
    · split
      · exact h
      · exact sound_afterRead h false raw
    · trivial

theorem Sound.put (h : Sound w) (id : Nat) {phase : Phase F T} (hphase : phase.Sound) :
    ∀ id', ((w.put id phase).calls id').Sound := by
  intro id'
  show (Function.update w.calls id phase id').Sound
  by_cases heq : id' = id
  · rw [heq, Function.update_self]
    exact hphase
  · rw [Function.update_of_ne heq]
    exact h id'

theorem migration_ne_saved {record : Json F} :
    migration legacy ≠ some (.saved serverId record) := by
  cases legacy with
  | true | false => exact nofun

theorem effect_saved {record : Json F}
    (h : call.effect dates payload legacy = some (.saved serverId record)) :
    ∃ saved, call = .save serverId saved := by
  cases call with
  | save serverId' saved =>
    obtain ⟨rfl, -⟩ := Effect.saved.inj (Option.some.inj h)
    exact ⟨saved, rfl⟩
  | load =>
    rw [Call.effect] at h
    split at h
    · exact absurd h migration_ne_saved
    · exact absurd h migration_ne_saved
    · split at h
      · exact absurd h migration_ne_saved
      · cases h
  | delete =>
    rw [Call.effect] at h
    split at h
    · cases h
    · exact absurd h migration_ne_saved
  | list => exact absurd h migration_ne_saved

theorem Normal.apply (h : Normal payload) {effect : Effect F} (hcall : call.canonical = some call)
    (heffect : call.effect dates payload legacy = some effect) :
    Normal (effect.apply payload) := by
  cases effect with
  | migrated => exact h
  | deleted serverId => exact h.remove serverId
  | saved serverId record =>
    obtain ⟨saved, rfl⟩ := effect_saved heffect
    rw [Call.canonical] at hcall
    obtain ⟨name, hname, hsave⟩ := Option.map_eq_some_iff.mp hcall
    obtain ⟨rfl, -⟩ := Call.save.inj hsave
    exact h.assign hname record

theorem lookup_apply (payload : Payload F) (effect : Effect F) (serverId : String) :
    (effect.apply payload).lookup serverId =
      (effect.record serverId).getD (payload.lookup serverId) := by
  cases effect with
  | migrated => rfl
  | saved serverId' record =>
    rw [Effect.apply, Effect.record]
    by_cases h : serverId' = serverId
    · rw [if_pos h, h, Json.lookup_assign_self]
      rfl
    · rw [if_neg h, Json.lookup_assign_of_ne _ _ (Ne.symm h)]
      rfl
  | deleted serverId' =>
    rw [Effect.apply, Effect.record]
    by_cases h : serverId' = serverId
    · rw [if_pos h, h, Json.lookup_remove_self]
      rfl
    · rw [if_neg h, Json.lookup_remove_of_ne _ (Ne.symm h)]
      rfl

variable {w' : World F T}

/-- **What a step leaves of a record:** what was read, where it is written back, and else what
the step writes, or what was stored. -/
theorem step_recordOf {l : Label F T} (hsound : Sound w) (h : Step dates w l w') (serverId : String) :
    recordOf w'.file serverId =
      if writesBack serverId l then (w.calls l.1.id).seen serverId
      else (recorded serverId l).getD (recordOf w.file serverId) := by
  obtain ⟨op, effect⟩ := l
  unfold Step exec at h
  dsimp only at h
  split at h
  · split at h
    · cases h
      rfl
    · cases h
      rfl
  · rename_i id published call source raw hphase
    cases h
    rw [hphase]
    cases published with
    | true | false => rfl
  · rename_i id fate call payload legacy hphase
    have hcall := hsound id
    dsimp only [Op.id] at hphase
    rw [hphase] at hcall
    split at h
    · rename_i effect' source heffect
      split at h
      · cases h
        rw [recordOf_normal (hcall.2.apply hcall.1 heffect), lookup_apply]
        cases hrecord : effect'.record serverId with
        | none =>
          show _ = if (effect'.record serverId).isNone then (w.calls id).seen serverId else _
          rw [hrecord, hphase]
          rfl
        | some record =>
          show _ = if (effect'.record serverId).isNone then _ else
            (effect'.record serverId).getD _
          rw [hrecord]
          rfl
      · cases h
        rfl
    · cases h
      rfl
  · cases h

theorem step_sound {l : Label F T} (hsound : Sound w) (h : Step dates w l w') : Sound w' := by
  obtain ⟨op, effect⟩ := l
  unfold Step exec at h
  dsimp only at h
  split at h
  · split at h
    · cases h
      exact hsound.put _ trivial
    · rename_i call hcall
      cases h
      exact hsound.put _ (sound_loadStorePayload (canonical_canonical hcall) _ _ _)
  · rename_i id published call source raw hphase
    cases h
    have hcall := hsound id
    dsimp only [Op.id] at hphase
    rw [hphase] at hcall
    exact hsound.put _ (sound_afterRead hcall _ _)
  · split at h
    · split at h
      · cases h
        exact hsound.put _ trivial
      · cases h
        exact hsound.put _ trivial
    · cases h
      exact hsound.put _ trivial
  · cases h

theorem step_iff {l : Label F T} (hsound : Sound w) (h : Step dates w l w') :
    (∀ serverId, recordOf w'.file serverId =
      (recorded serverId l).getD (recordOf w.file serverId)) ↔ Undisturbed w l := by
  have hnone (serverId : String) (hback : writesBack serverId l = true) :
      recorded serverId l = none := by
    obtain ⟨op, effect⟩ := l
    cases effect with
    | none => rfl
    | some effect =>
      cases op with
      | finish | read => exact Option.isNone_iff_eq_none.mp hback
      | rotate id published =>
        -- what is written anew is no call's effect
        unfold Step exec at h
        split at h
        · rename_i heq _
          cases heq
        · cases h
        · rename_i heq _
          cases heq
        · cases h
  constructor
  · intro hall serverId hback
    have heq := hall serverId
    rw [step_recordOf hsound h, if_pos hback, hnone serverId hback] at heq
    exact heq.symm
  · intro hundisturbed serverId
    rw [step_recordOf hsound h]
    by_cases hback : writesBack serverId l = true
    · rw [if_pos hback, hnone serverId hback, ← hundisturbed serverId hback]
      rfl
    · rw [if_neg hback]

/-! ### Runs -/

/-- Every server has the record that was last written or deleted for it, if one was. -/
def Kept (trace : List (Label F T)) (w : World F T) : Prop :=
  ∀ serverId, recordOf w.file serverId =
    (latest (recorded serverId) trace).getD (recordOf file serverId)

theorem sound_start : Sound (World.start file : World F T) := fun _ => trivial

theorem getD_or {α : Type} (a b : Option α) (c : α) : (a.or b).getD c = a.getD (b.getD c) := by
  cases a with
  | none | some a => rfl

/-- **The records are those that were last written, all along a run, just if every write finds
the other records as it read them.** -/
theorem kept_iff_undisturbed (dates : Datetimes T) (file : Stored F) {trace : List (Label F T)}
    {w : World F T} (hrun : Run (Step dates) (World.start file) trace w) :
    (∀ first m rest, trace = first ++ rest → Run (Step dates) (World.start file) first m →
      Kept file first m) ↔
    Throughout (Step dates) (World.start file) (fun _ m l => Undisturbed m l) trace := by
  refine hrun.throughout_iff (fun s l t t' ht ht' => ?_) (fun _ => rfl) ?_
  · exact (Prod.mk.inj (Option.some.inj (ht.symm.trans ht'))).1
  · intro trace m l m' hrun hkept hstep
    have hsound := hrun.invariant (sound_start file) fun _ _ _ => step_sound
    rw [← step_iff hsound hstep]
    refine forall_congr' fun serverId => ?_
    rw [latest_snoc, getD_or, ← hkept serverId]

/-! ### Two calls at once -/

def plainDates : Datetimes Nat where
  format := fun _ => ""
  parse := fun _ => none

def plainRecord : TokenRecord Nat where
  accessToken := "token"
  tokenType := "Bearer"
  expiresAt := 0
  refreshToken := none
  grantedScopes := []
  obtainedAt := 0
  bindingId := none

/-- Two calls save a record for a server each; both read the document before either writes it. -/
def crossedTrace : List (Label Unit Nat) :=
  [(.read 0 (.save "alpha" plainRecord) true none, none),
    (.read 1 (.save "beta" plainRecord) true none, none),
    (.finish 0 (.published .keyring), some (.saved "alpha" (plainRecord.asPayload plainDates))),
    (.finish 1 (.published .keyring), some (.saved "beta" (plainRecord.asPayload plainDates)))]

theorem canonical_save (h : Canonical serverId) (record : TokenRecord T) :
    (Call.save serverId record).canonical = some (.save serverId record) := by
  rw [Call.canonical, h, Option.map_some]

theorem step_read {id : Nat} (hidle : w.calls id = .idle) (hcall : call.canonical = some call')
    (opens : Bool) (preferred : Option KeySource) :
    Step dates w (.read id call opens preferred, none)
      (w.put id (loadStorePayload call' opens preferred w.file)) := by
  unfold Step exec
  dsimp only [Op.id]
  rw [hidle]
  dsimp only
  rw [hcall]

/-- What the second call leaves. -/
def crossedWorld : World Unit Nat where
  file := .envelope 2 .keyring [("beta", plainRecord.asPayload plainDates)]
  calls := ((((World.start .absent).put 0 (.loaded (.save "alpha" plainRecord) [] false)).put 1
    (.loaded (.save "beta" plainRecord) [] false)).put 0 .returned).put 1 .returned |>.calls

theorem run_crossed : Run (Step plainDates) (World.start .absent) crossedTrace crossedWorld := by
  have halpha := canonical_save (show Canonical "alpha" by decide +kernel) plainRecord
  have hbeta := canonical_save (show Canonical "beta" by decide +kernel) plainRecord
  let w₁ : World Unit Nat :=
    (World.start .absent).put 0 (.loaded (.save "alpha" plainRecord) [] false)
  let w₂ := w₁.put 1 (.loaded (.save "beta" plainRecord) [] false)
  let w₃ := { w₂.put 0 .returned with
    file := .envelope 2 .keyring [("alpha", plainRecord.asPayload plainDates)] }
  have h₁ : Step plainDates (World.start .absent) (_, none) w₁ := step_read rfl halpha true none
  have h₂ : Step plainDates w₁ (_, none) w₂ := step_read rfl hbeta true none
  have h₃ : Step plainDates w₂ (.finish 0 (.published .keyring),
      some (.saved "alpha" (plainRecord.asPayload plainDates))) w₃ := rfl
  have h₄ : Step plainDates w₃ (.finish 1 (.published .keyring),
      some (.saved "beta" (plainRecord.asPayload plainDates))) crossedWorld := rfl
  exact (((Run.nil.snoc h₁).snoc h₂).snoc h₃).snoc h₄

/-- **A record is lost.** -/
theorem record_lost : ∃ w, Run (Step plainDates) (World.start .absent) crossedTrace w ∧
      latest (recorded "alpha") crossedTrace = some (some (plainRecord.asPayload plainDates)) ∧
      recordOf w.file "alpha" = none := by
  have hbeta : normalizeServerId "beta" = some "beta" := by decide +kernel
  refine ⟨crossedWorld, run_crossed, rfl, ?_⟩
  have hnormal : Normal [("beta", (plainRecord.asPayload plainDates : Json Unit))] :=
    normal_nil.assign hbeta _
  exact recordOf_normal hnormal 2 .keyring "alpha"

/-- The first call of the two, alone. -/
theorem kept_iff_undisturbed_first :
    ∃ w, Run (Step plainDates) (World.start .absent) (crossedTrace.take 3) w ∧
      ((∀ first m rest, crossedTrace.take 3 = first ++ rest →
        Run (Step plainDates) (World.start .absent) first m → Kept .absent first m) ↔
      Throughout (Step plainDates) (World.start .absent) (fun _ m l => Undisturbed m l)
        (crossedTrace.take 3)) := by
  have hrun : Run (Step plainDates) (World.start .absent) (crossedTrace.take 3 ++ _) _ := run_crossed
  obtain ⟨w, hfirst, -⟩ := hrun.split
  exact ⟨w, hfirst, kept_iff_undisturbed plainDates .absent hfirst⟩

end AlysisCode.Mcp
