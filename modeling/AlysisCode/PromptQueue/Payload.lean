/-
The payloads of the prompt queue.

A payload is a Python value: `_normalize_json` copies it into dicts and lists within two
budgets, and `_serialize_payload` writes the copy.  A `str` is a sequence of code points,
and the surrogates among them have no encoding, so a text that `json.dumps` gives may still
not encode.

`visit_eq_ok` says which values the copy accepts and what it gives; the exception of a text
that does not encode is the one that is not the module's own (`serializePayload_escapes_iff`).
-/
import AlysisCode.Library.JsonText
import AlysisCode.PromptQueue.Basic

namespace AlysisCode.PromptQueue

open Json Runs

/-! ### Python values -/

/-- A code point of a `str`. -/
inductive CodePoint where
  | scalar (c : Char)
  | surrogate (n : Fin 2048)
  deriving DecidableEq

def CodePoint.ord : CodePoint → Nat
  | .scalar c => c.toNat
  | .surrogate n => 0xD800 + n

def CodePoint.isSurrogate : CodePoint → Bool
  | .scalar _ => false
  | .surrogate _ => true

/-- The character that `encode("utf-8")` writes. -/
def CodePoint.encode : CodePoint → Option Char
  | .scalar c => some c
  | .surrogate _ => none

/-- Half of a surrogate pair. -/
def CodePoint.high : CodePoint := .surrogate 0

abbrev PyStr := List CodePoint

def PyStr.encode (s : PyStr) : Option String := (s.mapM CodePoint.encode).map String.ofList

def PyStr.ofString (s : String) : PyStr := s.toList.map .scalar

/-- A key that a `Mapping` yields. -/
inductive PyKey where
  | str (s : PyStr)
  | other

/-- A value that a caller may pass. -/
inductive PyValue (F : Type) where
  | none
  | bool (b : Bool)
  | int (n : Int)
  | float (x : F)
  | str (s : PyStr)
  | list (items : List (PyValue F))
  | tuple (items : List (PyValue F))
  | mapping (items : List (PyKey × PyValue F))
  | other

/-- `JsonValue`: what the copy consists of. -/
inductive JsonValue (F : Type) where
  | null
  | bool (b : Bool)
  | int (n : Int)
  | float (x : F)
  | str (s : PyStr)
  | arr (items : List (JsonValue F))
  | obj (members : List (PyStr × JsonValue F))

/-- `result[key] = value` -/
def setItem {V : Type} : List (PyStr × V) → PyStr → V → List (PyStr × V)
  | [], key, v => [(key, v)]
  | m :: rest, key, v => if m.1 = key then (key, v) :: rest else m :: setItem rest key v

variable {F : Type}

/-- `isinstance(payload, Mapping)` -/
def PyValue.isMapping : PyValue F → Bool
  | .mapping _ => true
  | _ => false

mutual
def PyValue.plain : PyValue F → Option (JsonValue F)
  | .none => some .null
  | .bool b => some (.bool b)
  | .int n => some (.int n)
  | .float x => some (.float x)
  | .str s => some (.str s)
  | .list items => do
    let items ← plainItems items
    some (.arr items)
  | .tuple items => do
    let items ← plainItems items
    some (.arr items)
  | .mapping items => do
    let members ← plainMembers [] items
    some (.obj members)
  | .other => Option.none
def PyValue.plainItems : List (PyValue F) → Option (List (JsonValue F))
  | [] => some []
  | item :: rest => do
    let v ← item.plain
    let vs ← plainItems rest
    some (v :: vs)
def PyValue.plainMembers (result : List (PyStr × JsonValue F)) :
    List (PyKey × PyValue F) → Option (List (PyStr × JsonValue F))
  | [] => some result
  | (.other, _) :: _ => Option.none
  | (.str key, child) :: rest => do
    let v ← child.plain
    plainMembers (setItem result key v) rest
end

mutual
/-- How many values it holds, itself among them. -/
def PyValue.nodes : PyValue F → Nat
  | .list items | .tuple items => nodesItems items + 1
  | .mapping items => nodesMembers items + 1
  | .none | .bool _ | .int _ | .float _ | .str _ | .other => 1
def PyValue.nodesItems : List (PyValue F) → Nat
  | [] => 0
  | item :: rest => item.nodes + nodesItems rest
def PyValue.nodesMembers : List (PyKey × PyValue F) → Nat
  | [] => 0
  | (_, child) :: rest => child.nodes + nodesMembers rest
end

/-! ### The copy -/

/-- The limits of `PromptQueueConfig` on a payload. -/
structure PayloadLimits where
  maxPayloadBytes : Nat := 1024 * 1024
  maxJsonDepth : Nat := 24
  maxJsonNodes : Nat := 50000
  payloadBytes_pos : 0 < maxPayloadBytes := by decide
  jsonDepth_pos : 0 < maxJsonDepth := by decide
  jsonNodes_pos : 0 < maxJsonNodes := by decide

def containsControlCharacter (value : PyStr) : Bool :=
  value.any fun c => decide (c.ord < 32) || c.ord == 127

def invalidKey (key : PyStr) : Bool := decide (512 < key.length) || containsControlCharacter key

/-- How `visit` begins: it counts the value and checks both budgets. -/
def enter (limits : PayloadLimits) (depth nodes : Nat) : Except PromptQueueError Nat :=
  if limits.maxJsonNodes < nodes + 1 then
    .error (.validation "Prompt payload has too many JSON values.")
  else if limits.maxJsonDepth < depth then
    .error (.validation "Prompt payload is nested too deeply.")
  else .ok (nodes + 1)

variable {limits : PayloadLimits} {depth n n' : Nat} {v : JsonValue F}

theorem enter_eq_ok : enter limits depth n = .ok n' ↔
      depth ≤ limits.maxJsonDepth ∧ n + 1 ≤ limits.maxJsonNodes ∧ n' = n + 1 := by
  unfold enter
  by_cases hnodes : limits.maxJsonNodes < n + 1
  · rw [if_pos hnodes]
    simp only [reduceCtorEq, false_iff]
    omega
  · rw [if_neg hnodes]
    by_cases hdepth : limits.maxJsonDepth < depth
    · rw [if_pos hdepth]
      simp only [reduceCtorEq, false_iff]
      omega
    · rw [if_neg hdepth, Except.ok.injEq]
      omega

/-! A value without parts, and one with parts that are specified. -/

theorem leaf_eq_ok {v' : JsonValue F} :
    (enter limits depth n >>= fun nodes => .ok (v', nodes)) = .ok (v, n') ↔
      decide (depth ≤ limits.maxJsonDepth) = true ∧ n + 1 ≤ limits.maxJsonNodes ∧
        some v' = some v ∧ n' = n + 1 := by
  simp only [bind_eq_ok, enter_eq_ok, decide_eq_true_eq, Except.ok.injEq, Prod.mk.injEq,
    Option.some.injEq]
  constructor
  · intro ⟨m, ⟨hdepth, hnodes, hm⟩, hv, hn⟩
    exact ⟨hdepth, hnodes, hv, hn ▸ hm⟩
  · intro ⟨hdepth, hnodes, hv, hn⟩
    exact ⟨n + 1, ⟨hdepth, hnodes, rfl⟩, hv, hn.symm⟩

theorem nested_eq_ok {α : Type} {count : Nat} {parts : Nat → Except PromptQueueError (α × Nat)}
    {admitted : Bool} {plain : Option α} {wrap : α → JsonValue F}
    (hparts : ∀ m a m', m ≤ limits.maxJsonNodes → (parts m = .ok (a, m') ↔
      admitted = true ∧ m + count ≤ limits.maxJsonNodes ∧ plain = some a ∧ m' = m + count)) :
    (enter limits depth n >>= fun nodes => parts nodes >>= fun r => .ok (wrap r.1, r.2)) =
        .ok (v, n') ↔
      (decide (depth ≤ limits.maxJsonDepth) && admitted) = true ∧
        n + (count + 1) ≤ limits.maxJsonNodes ∧
        (plain >>= fun a => some (wrap a)) = some v ∧ n' = n + (count + 1) := by
  simp only [bind_eq_ok, enter_eq_ok, Bool.and_eq_true, decide_eq_true_eq, Except.ok.injEq,
    Prod.mk.injEq, Option.bind_eq_bind, Option.bind_eq_some_iff, Option.some.injEq]
  constructor
  · intro ⟨m, ⟨hdepth, hnodes, hm⟩, ⟨a, m'⟩, hrun, hv, hm'⟩
    obtain ⟨hadmitted, hcount, hplain, heq⟩ := (hparts m a m' (by omega)).mp hrun
    exact ⟨⟨hdepth, hadmitted⟩, by omega, ⟨a, hplain, hv⟩, by omega⟩
  · intro ⟨⟨hdepth, hadmitted⟩, hcount, ⟨a, hplain, hv⟩, hn'⟩
    have hrun := (hparts (n + 1) a (n + 1 + count) (by omega)).mpr
      ⟨hadmitted, by omega, hplain, rfl⟩
    exact ⟨n + 1, ⟨hdepth, by omega, rfl⟩, (a, n + 1 + count), hrun, hv, by omega⟩

section Visit

variable [Floats F]

mutual
/-- `visit`; `nodes` is the counter it shares. -/
def visit (limits : PayloadLimits) (depth nodes : Nat) :
    PyValue F → Except PromptQueueError (JsonValue F × Nat)
  | .none => do
    let nodes ← enter limits depth nodes
    .ok (.null, nodes)
  | .bool b => do
    let nodes ← enter limits depth nodes
    .ok (.bool b, nodes)
  | .str s => do
    let nodes ← enter limits depth nodes
    .ok (.str s, nodes)
  | .int n => do
    let nodes ← enter limits depth nodes
    .ok (.int n, nodes)
  | .float x => do
    let nodes ← enter limits depth nodes
    if Floats.isFinite x = false then
      .error (.validation "Prompt payload contains an invalid number.")
    else .ok (.float x, nodes)
  | .mapping items => do
    let nodes ← enter limits depth nodes
    let (result, nodes) ← visitMembers limits (depth + 1) nodes [] items
    .ok (.obj result, nodes)
  | .list items => do
    let nodes ← enter limits depth nodes
    let (items, nodes) ← visitItems limits (depth + 1) nodes items
    .ok (.arr items, nodes)
  | .tuple items => do
    let nodes ← enter limits depth nodes
    let (items, nodes) ← visitItems limits (depth + 1) nodes items
    .ok (.arr items, nodes)
  | .other => do
    let _ ← enter limits depth nodes
    .error (.validation "Prompt payload contains a non-JSON value.")
def visitItems (limits : PayloadLimits) (depth nodes : Nat) :
    List (PyValue F) → Except PromptQueueError (List (JsonValue F) × Nat)
  | [] => .ok ([], nodes)
  | item :: rest => do
    let (v, nodes) ← visit limits depth nodes item
    let (vs, nodes) ← visitItems limits depth nodes rest
    .ok (v :: vs, nodes)
def visitMembers (limits : PayloadLimits) (depth nodes : Nat)
    (result : List (PyStr × JsonValue F)) :
    List (PyKey × PyValue F) → Except PromptQueueError (List (PyStr × JsonValue F) × Nat)
  | [] => .ok (result, nodes)
  | (.other, _) :: _ => .error (.validation "Prompt payload object keys must be strings.")
  | (.str key, child) :: rest =>
    if invalidKey key = true then .error (.validation "Prompt payload object key is invalid.")
    else do
      let (v, nodes) ← visit limits depth nodes child
      visitMembers limits depth nodes (setItem result key v) rest
end

def normalizeJson (limits : PayloadLimits) (value : PyValue F) :
    Except PromptQueueError (JsonValue F) := do
  let (normalized, _) ← visit limits 0 0 value
  .ok normalized

/-! ### Which values it accepts -/

mutual
/-- The value is made of JSON values only, with keys and numbers that are allowed, and no
deeper than the limit. -/
def admits (limits : PayloadLimits) (depth : Nat) : PyValue F → Bool
  | .none | .bool _ | .str _ | .int _ => decide (depth ≤ limits.maxJsonDepth)
  | .float x => decide (depth ≤ limits.maxJsonDepth) && Floats.isFinite x
  | .list items | .tuple items =>
    decide (depth ≤ limits.maxJsonDepth) && admitsItems limits (depth + 1) items
  | .mapping items =>
    decide (depth ≤ limits.maxJsonDepth) && admitsMembers limits (depth + 1) items
  | .other => false
def admitsItems (limits : PayloadLimits) (depth : Nat) : List (PyValue F) → Bool
  | [] => true
  | item :: rest => admits limits depth item && admitsItems limits depth rest
def admitsMembers (limits : PayloadLimits) (depth : Nat) : List (PyKey × PyValue F) → Bool
  | [] => true
  | (.other, _) :: _ => false
  | (.str key, child) :: rest =>
    !invalidKey key && (admits limits depth child && admitsMembers limits depth rest)
end

mutual
variable {limits : PayloadLimits}

/-- **What the copy accepts and gives.** -/
theorem visit_eq_ok (p : PyValue F) {depth n n' : Nat} {v : JsonValue F} :
    visit limits depth n p = .ok (v, n') ↔
      admits limits depth p = true ∧ n + p.nodes ≤ limits.maxJsonNodes ∧ p.plain = some v ∧
        n' = n + p.nodes := by
  cases p with
  | none | bool b | int k | str s => exact leaf_eq_ok
  | other => simp [visit, admits, bind_eq_ok]
  | float x =>
    rw [visit, admits, PyValue.nodes, PyValue.plain]
    by_cases hx : Floats.isFinite x = false
    · simp [bind_eq_ok, hx]
    · simp only [if_neg hx]
      rw [leaf_eq_ok]
      simp [hx]
  | list items | tuple items =>
    exact nested_eq_ok fun m a m' hm => visitItems_eq_ok items hm
  | mapping items =>
    exact nested_eq_ok fun m a m' hm => visitMembers_eq_ok items hm
theorem visitItems_eq_ok (items : List (PyValue F)) {depth n n' : Nat}
    {vs : List (JsonValue F)} (hn : n ≤ limits.maxJsonNodes) :
    visitItems limits depth n items = .ok (vs, n') ↔ admitsItems limits depth items = true ∧
        n + PyValue.nodesItems items ≤ limits.maxJsonNodes ∧
        PyValue.plainItems items = some vs ∧ n' = n + PyValue.nodesItems items := by
  cases items with
  | nil =>
    simp only [visitItems, admitsItems, PyValue.nodesItems, PyValue.plainItems, Except.ok.injEq,
      Prod.mk.injEq, Option.some.injEq, true_and]
    constructor
    · intro ⟨hvs, hn'⟩
      exact ⟨hn, hvs, hn'.symm⟩
    · intro ⟨_, hvs, hn'⟩
      exact ⟨hvs, hn'.symm⟩
  | cons item rest =>
    simp only [visitItems, admitsItems, PyValue.nodesItems, PyValue.plainItems, bind_eq_ok,
      Bool.and_eq_true, Option.bind_eq_bind, Option.bind_eq_some_iff, Option.some.injEq,
      Except.ok.injEq, Prod.mk.injEq]
    constructor
    · intro ⟨⟨v, m⟩, hitem, ⟨vs', m'⟩, hrest, hvs, hm'⟩
      obtain ⟨hadmits, hle, hplain, hm⟩ := (visit_eq_ok item).mp hitem
      obtain ⟨hadmits', hle', hplain', hcount⟩ := (visitItems_eq_ok rest (by omega)).mp hrest
      exact ⟨⟨hadmits, hadmits'⟩, by omega, ⟨v, hplain, vs', hplain', hvs⟩, by omega⟩
    · intro ⟨⟨hadmits, hadmits'⟩, hle, ⟨v, hplain, vs', hplain', hvs⟩, hn'⟩
      exact ⟨(v, n + item.nodes), (visit_eq_ok item).mpr ⟨hadmits, by omega, hplain, rfl⟩,
        (vs', n + item.nodes + PyValue.nodesItems rest),
        (visitItems_eq_ok rest (by omega)).mpr ⟨hadmits', by omega, hplain', rfl⟩, hvs,
        by omega⟩
theorem visitMembers_eq_ok (items : List (PyKey × PyValue F))
    {depth n n' : Nat} {result out : List (PyStr × JsonValue F)} (hn : n ≤ limits.maxJsonNodes) :
    visitMembers limits depth n result items = .ok (out, n') ↔
      admitsMembers limits depth items = true ∧
        n + PyValue.nodesMembers items ≤ limits.maxJsonNodes ∧
        PyValue.plainMembers result items = some out ∧ n' = n + PyValue.nodesMembers items := by
  match items with
  | [] =>
    simp only [visitMembers, admitsMembers, PyValue.nodesMembers, PyValue.plainMembers,
      Except.ok.injEq, Prod.mk.injEq, Option.some.injEq, true_and]
    constructor
    · intro ⟨hout, hn'⟩
      exact ⟨hn, hout, hn'.symm⟩
    · intro ⟨_, hout, hn'⟩
      exact ⟨hout, hn'.symm⟩
  | (.other, child) :: rest => simp [visitMembers, admitsMembers]
  | (.str key, child) :: rest =>
    simp only [visitMembers, admitsMembers, PyValue.nodesMembers, PyValue.plainMembers,
      guard_eq_ok, bind_eq_ok, Bool.and_eq_true, Bool.not_eq_true', Bool.not_eq_true,
      Option.bind_eq_bind, Option.bind_eq_some_iff]
    constructor
    · intro ⟨hkey, ⟨v, m⟩, hchild, hrest⟩
      obtain ⟨hadmits, hle, hplain, hm⟩ := (visit_eq_ok child).mp hchild
      obtain ⟨hadmits', hle', hplain', hcount⟩ := (visitMembers_eq_ok rest (by omega)).mp hrest
      exact ⟨⟨hkey, hadmits, hadmits'⟩, by omega, ⟨v, hplain, hplain'⟩, by omega⟩
    · intro ⟨⟨hkey, hadmits, hadmits'⟩, hle, ⟨v, hplain, hplain'⟩, hn'⟩
      exact ⟨hkey, (v, n + child.nodes), (visit_eq_ok child).mpr ⟨hadmits, by omega, hplain, rfl⟩,
        (visitMembers_eq_ok rest (by omega)).mpr ⟨hadmits', by omega, hplain', by omega⟩⟩
end

end Visit

/-! ### Writing the copy -/

mutual
/-- One of its strings or keys, or one of its integers, is such. -/
def JsonValue.mentions (str : PyStr → Bool) (int : Int → Bool) : JsonValue F → Bool
  | .null | .bool _ | .float _ => false
  | .int n => int n
  | .str s => str s
  | .arr items => mentionsItems str int items
  | .obj members => mentionsMembers str int members
def JsonValue.mentionsItems (str : PyStr → Bool) (int : Int → Bool) : List (JsonValue F) → Bool
  | [] => false
  | v :: rest => v.mentions str int || mentionsItems str int rest
def JsonValue.mentionsMembers (str : PyStr → Bool) (int : Int → Bool) :
    List (PyStr × JsonValue F) → Bool
  | [] => false
  | (key, v) :: rest => str key || (v.mentions str int || mentionsMembers str int rest)
end

/-- `sys.get_int_max_str_digits()` -/
def maxStrDigits : Nat := 4300

/-- `int.__repr__` raises `ValueError`. -/
def JsonValue.hasLongInteger : JsonValue F → Bool :=
  JsonValue.mentions (fun _ => false) fun n => decide (10 ^ maxStrDigits ≤ n.natAbs)

def JsonValue.hasSurrogate : JsonValue F → Bool :=
  JsonValue.mentions (fun s => s.any CodePoint.isSurrogate) fun _ => false

mutual
def JsonValue.encode : JsonValue F → Option (Json F)
  | .null => some .null
  | .bool b => some (.bool b)
  | .int n => some (.int n)
  | .float x => some (.float x)
  | .str s => do
    let s ← s.encode
    some (.str s)
  | .arr items => do
    let items ← encodeItems items
    some (.arr items)
  | .obj members => do
    let members ← encodeMembers [] members
    some (.obj members)
def JsonValue.encodeItems : List (JsonValue F) → Option (List (Json F))
  | [] => some []
  | v :: rest => do
    let w ← v.encode
    let ws ← encodeItems rest
    some (w :: ws)
def JsonValue.encodeMembers (result : List (String × Json F)) :
    List (PyStr × JsonValue F) → Option (List (String × Json F))
  | [] => some result
  | (key, v) :: rest => do
    let key ← key.encode
    let w ← v.encode
    encodeMembers (assign result key w) rest
end

mutual
theorem encode_distinct {v : JsonValue F} {w : Json F} (h : v.encode = some w) : w.Distinct := by
  cases v with
  | null | bool | int | float =>
    cases h
    constructor
  | str s =>
    obtain ⟨_, -, h⟩ := Option.bind_eq_some_iff.mp h
    cases h
    exact .str
  | arr items =>
    obtain ⟨ws, hitems, h⟩ := Option.bind_eq_some_iff.mp h
    cases h
    exact .arr (encodeItems_distinct hitems)
  | obj members =>
    obtain ⟨out, hmembers, h⟩ := Option.bind_eq_some_iff.mp h
    cases h
    exact encodeMembers_distinct (.obj (by simp) (by simp)) hmembers
theorem encodeItems_distinct {items : List (JsonValue F)} {ws : List (Json F)}
    (h : JsonValue.encodeItems items = some ws) : ∀ w ∈ ws, w.Distinct := by
  cases items with
  | nil =>
    cases h
    simp
  | cons v rest =>
    obtain ⟨w, hw, h⟩ := Option.bind_eq_some_iff.mp h
    obtain ⟨ws', hrest, h⟩ := Option.bind_eq_some_iff.mp h
    cases h
    intro w' hw'
    rcases List.mem_cons.mp hw' with rfl | hw'
    · exact encode_distinct hw
    · exact encodeItems_distinct hrest w' hw'
theorem encodeMembers_distinct {members : List (PyStr × JsonValue F)}
    {result out : List (String × Json F)} (hresult : (Json.obj result).Distinct)
    (h : JsonValue.encodeMembers result members = some out) : (Json.obj out).Distinct := by
  match members with
  | [] =>
    cases h
    exact hresult
  | (key, v) :: rest =>
    obtain ⟨key', -, h⟩ := Option.bind_eq_some_iff.mp h
    obtain ⟨w, hw, h⟩ := Option.bind_eq_some_iff.mp h
    exact encodeMembers_distinct (assign_distinct hresult (encode_distinct hw)) h
end

theorem encode_str_eq_none {s : PyStr} : s.encode = none ↔ s.any CodePoint.isSurrogate = true := by
  unfold PyStr.encode
  rw [Option.map_eq_none_iff]
  induction s with
  | nil => simp
  | cons c rest ih =>
    rw [List.mapM_cons, List.any_cons]
    cases c with
    | scalar c =>
      simp only [CodePoint.encode, CodePoint.isSurrogate, Bool.false_or, ← ih]
      cases List.mapM CodePoint.encode rest <;> simp
    | surrogate n => simp [CodePoint.encode, CodePoint.isSurrogate]

mutual
theorem encode_eq_none (v : JsonValue F) : v.encode = none ↔ v.hasSurrogate = true := by
  cases v with
  | null | bool | int | float => simp [JsonValue.encode, JsonValue.hasSurrogate, JsonValue.mentions]
  | str s =>
    simp only [JsonValue.encode, JsonValue.hasSurrogate, JsonValue.mentions, ← encode_str_eq_none]
    cases s.encode <;> simp
  | arr items =>
    have hitems := encodeItems_eq_none items
    simp only [JsonValue.encode, JsonValue.hasSurrogate, JsonValue.mentions, ← hitems]
    cases JsonValue.encodeItems items <;> simp
  | obj members =>
    have hmembers := encodeMembers_eq_none [] members
    simp only [JsonValue.encode, JsonValue.hasSurrogate, JsonValue.mentions, ← hmembers]
    cases JsonValue.encodeMembers [] members <;> simp
theorem encodeItems_eq_none (items : List (JsonValue F)) : JsonValue.encodeItems items = none ↔
      JsonValue.mentionsItems (fun s => s.any CodePoint.isSurrogate) (fun _ => false) items =
        true := by
  cases items with
  | nil => simp [JsonValue.encodeItems, JsonValue.mentionsItems]
  | cons v rest =>
    have hv := encode_eq_none v
    have hrest := encodeItems_eq_none rest
    unfold JsonValue.hasSurrogate at hv
    simp only [JsonValue.encodeItems, JsonValue.mentionsItems, Bool.or_eq_true, ← hv, ← hrest]
    cases v.encode <;> cases JsonValue.encodeItems rest <;> simp
theorem encodeMembers_eq_none (result : List (String × Json F))
    (members : List (PyStr × JsonValue F)) :
    JsonValue.encodeMembers result members = none ↔
      JsonValue.mentionsMembers (fun s => s.any CodePoint.isSurrogate) (fun _ => false) members =
        true := by
  match members with
  | [] => simp [JsonValue.encodeMembers, JsonValue.mentionsMembers]
  | (key, v) :: rest =>
    have hkey := @encode_str_eq_none key
    have hv := encode_eq_none v
    unfold JsonValue.hasSurrogate at hv
    simp only [JsonValue.encodeMembers, JsonValue.mentionsMembers, Bool.or_eq_true, ← hv, ← hkey]
    cases key.encode with
    | none => simp
    | some key' =>
      cases v.encode with
      | none => simp
      | some w => simpa using encodeMembers_eq_none (assign result key' w) rest
end

/-- A payload as the table holds it: a dict.  Two dicts are equal when their sorted forms are. -/
structure Payload (F : Type) where
  members : List (String × Json F)
  distinct : (Json.obj members).Distinct

/-- The members in the order of their keys, throughout. -/
def Payload.sorted (p : Payload F) : Payload F where
  members := Json.sortedMembers p.members |>.insertionSort byKey
  distinct := p.distinct.sorted

theorem plain_mapping {p : PyValue F} (hp : p.isMapping = true) (h : p.plain = some v) :
    ∃ members, v = .obj members := by
  cases p with
  | mapping items =>
    obtain ⟨members, -, hv⟩ := Option.bind_eq_some_iff.mp h
    exact ⟨members, (Option.some.inj hv).symm⟩
  | _ => cases hp

theorem encode_obj {members : List (PyStr × JsonValue F)} :
    JsonValue.encodeMembers [] members = none ↔ (JsonValue.obj members).hasSurrogate = true :=
  encodeMembers_eq_none [] members

section Serialize

variable [Floats F]

/-- `json.dumps(…, ensure_ascii=False, separators=(",", ":"), sort_keys=True)` -/
def payloadStyle : Style := { ascii := false, spaced := false, sortKeys := true }

/-- What `_item_from_row` decodes. -/
def loadsPayload (text : String) : Option (Payload F) :=
  match h : Json.loads text with
  | some (.obj members) => some ⟨members, loads_distinct h⟩
  | _ => none

variable {limits : PayloadLimits} {payload : PyValue F} {text : String}

theorem loadsPayload_eq {members : List (String × Json F)}
    (h : Json.loads text = some (.obj members)) :
    loadsPayload text = some ⟨members, loads_distinct h⟩ := by
  unfold loadsPayload
  split
  · rename_i members' h'
    simp only [Option.some.injEq, Payload.mk.injEq]
    simpa using h'.symm.trans h
  · rename_i hne
    exact absurd h (hne members)

/-- The exceptions of `enqueue`: the module's own, and `UnicodeEncodeError`. -/
inductive Raised where
  | queue (e : PromptQueueError)
  | unicodeEncodeError
  deriving DecidableEq

/-- `_serialize_payload`.  A text of `json.dumps` keeps the code points of the strings and keys
it was made from, so it encodes when all of them do. -/
def serializePayload (limits : PayloadLimits) (payload : PyValue F) :
    Except Raised (String × Payload F) :=
  if payload.isMapping = false then
    .error (.queue (.validation "Prompt payload must be a JSON object."))
  else
    match normalizeJson limits payload with
    | .error e => .error (.queue e)
    | .ok (.obj normalized) =>
      if (JsonValue.obj normalized).hasLongInteger = true then
        .error (.queue (.validation "Prompt payload is not valid JSON."))
      else
        match h : JsonValue.encodeMembers [] normalized with
        | none => .error .unicodeEncodeError
        | some members =>
          let serialized := dumps payloadStyle (.obj members)
          if limits.maxPayloadBytes < serialized.utf8ByteSize then
            .error (.queue (.validation "Prompt payload exceeds the queue size limit."))
          else .ok (serialized, ⟨members, encodeMembers_distinct (.obj (by simp) (by simp)) h⟩)
    | .ok _ => .error (.queue (.validation "Prompt payload must be a JSON object."))

/-- Dicts, written and read as JSON. -/
def payloadFormat (sha256 : String → String) : PayloadFormat (Payload F) where
  serializePayload p := .ok (dumps payloadStyle (.obj p.members), p.sorted)
  sha256
  loads := loadsPayload
  loads_serialize := by
    intro p text normalized h
    obtain ⟨rfl, rfl⟩ := Prod.mk.inj (Except.ok.inj h)
    exact loadsPayload_eq (@loads_dumps F _ payloadStyle (.obj p.members) p.distinct.sorted)

/-! What `_serialize_payload` does with a payload. -/

theorem normalizeJson_eq_ok {p : PyValue F} {v : JsonValue F} : normalizeJson limits p = .ok v ↔
      admits limits 0 p = true ∧ p.nodes ≤ limits.maxJsonNodes ∧ p.plain = some v := by
  unfold normalizeJson
  simp only [bind_eq_ok, Except.ok.injEq]
  constructor
  · intro ⟨⟨w, n⟩, hvisit, hw⟩
    obtain ⟨hadmits, hnodes, hplain, -⟩ := (visit_eq_ok p).mp hvisit
    exact ⟨hadmits, by omega, hw ▸ hplain⟩
  · intro ⟨hadmits, hnodes, hplain⟩
    exact ⟨(v, 0 + p.nodes), (visit_eq_ok p).mpr ⟨hadmits, by omega, hplain, rfl⟩, rfl⟩

/-- The payload passes the checks of the copy and its text is written, but the text does not
encode. -/
structure Escapes (limits : PayloadLimits) (payload : PyValue F) : Prop where
  mapping : payload.isMapping = true
  admitted : admits limits 0 payload = true
  nodes : payload.nodes ≤ limits.maxJsonNodes
  surrogate : ∃ v, payload.plain = some v ∧ v.hasLongInteger = false ∧ v.hasSurrogate = true

/-- **The exception that is not the module's own.** -/
theorem serializePayload_escapes_iff :
    serializePayload limits payload = .error .unicodeEncodeError ↔ Escapes limits payload := by
  unfold serializePayload
  constructor
  · intro h
    split at h
    · cases h
    · rename_i hmapping
      split at h
      · cases h
      · rename_i members hnormal
        obtain ⟨hadmits, hnodes, hplain⟩ := normalizeJson_eq_ok.mp hnormal
        split at h
        · cases h
        · rename_i hlong
          split at h
          · rename_i hencode
            exact ⟨by simpa using hmapping, hadmits, hnodes, _, hplain, by simpa using hlong,
              encode_obj.mp hencode⟩
          · dsimp only at h
            split at h <;> cases h
      · cases h
  · intro h
    obtain ⟨v, hplain, hlong, hsurrogate⟩ := h.surrogate
    obtain ⟨members, rfl⟩ := plain_mapping h.mapping hplain
    have hnormal := normalizeJson_eq_ok.mpr ⟨h.admitted, h.nodes, hplain⟩
    rw [if_neg (by simp [h.mapping]), hnormal]
    dsimp only
    rw [if_neg (by simp [hlong])]
    split
    · rfl
    · rename_i out hencode
      rw [encode_obj.mpr hsurrogate] at hencode
      cases hencode

/-- What is written is the payload, as dicts and lists. -/
theorem serializePayload_ok {p : Payload F} (h : serializePayload limits payload = .ok (text, p)) :
    ∃ v, payload.plain = some v ∧ v.encode = some (.obj p.members) := by
  unfold serializePayload at h
  split at h
  · cases h
  · split at h
    · cases h
    · rename_i members hnormal
      obtain ⟨-, -, hplain⟩ := normalizeJson_eq_ok.mp hnormal
      refine ⟨_, hplain, ?_⟩
      split at h
      · cases h
      · split at h
        · cases h
        · rename_i out hencode
          dsimp only at h
          split at h
          · cases h
          · obtain ⟨-, rfl⟩ := Prod.mk.inj (Except.ok.inj h)
            exact Option.bind_eq_some_iff.mpr ⟨out, hencode, rfl⟩
    · cases h

end Serialize

end AlysisCode.PromptQueue
