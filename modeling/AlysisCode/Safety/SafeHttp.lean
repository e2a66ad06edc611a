/-
Where the guarded requests of a chain of redirects connect to.

Every hop starts over: the URL is judged, its host is resolved, and each address of the answer is
judged.  An `http` request then connects to the first of these very addresses.  An `https` request
keeps the host name, for the certificate, and leaves it to the client to resolve it once more.
-/
import AlysisCode.Safety.Target

namespace AlysisCode.SafeHttp

open Ip Runs Text

/-! ### The loop over redirects -/

/-- What comes back over a connection, if anything does: the status, the `Location` and the size of
the body. -/
inductive Reply where
  | raised
  | response (status : Nat) (location : Option (List Char)) (bytes : Nat)

/-- What a hop meets: the resolver, the client's own resolver, and the server. -/
structure Hop where
  answer : List Char → Nat → Except Failure (List (List Char))
  lookup : List Char → Address
  reply : Reply

/-- The arguments of `safe_http_request` that bound it. -/
structure Settings where
  maxBytes : Int
  maxRedirects : Int
  allowRedirects : Bool
  customTransport : Bool

/-- The method and the payloads that are sent. -/
structure Request (β : Type) where
  method : List Char
  json : Option β
  content : Option β

/-- A connection that a hop opens, and the address it goes to. -/
structure Connection (β : Type) where
  target : SafeTarget
  request : Request β
  address : Address

variable {β : Type}

/-- The address that the client connects to: the host of the URL if it is one, and what the host
resolves to otherwise. -/
def clientAddress (netloc : List Char) (lookup : List Char → Address) : Address :=
  let name := (hostname netloc).getD []
  (ipAddress name).getD (lookup name)

def redirectStatusCodes : List Nat := [301, 302, 303, 307, 308]

def Request.redirected (request : Request β) (status : Nat) : Request β :=
  if status = 303 ∨ (status = 301 ∨ status = 302) ∧ request.method ≠ "GET".toList ∧
      request.method ≠ "HEAD".toList then
    ⟨"GET".toList, none, none⟩
  else request

/-- The loop of `safe_http_request`, with `left` redirects left: the connections it opens, and the
status it returns. -/
def loop (host : Host) (settings : Settings) (hops : Nat → Hop) (left n : Nat) (url : List Char)
    (request : Request β) : List (Connection β) × Except Failure Nat :=
  match validateAndResolveTarget host url (hops n).answer (!settings.customTransport) with
  | .error f => ([], .error f)
  | .ok target =>
    let connection : Connection β :=
      ⟨target, request, clientAddress target.connectUrl.netloc (hops n).lookup⟩
    match (hops n).reply with
    | .raised => ([connection], .error .exception)
    | .response status location bytes =>
      if settings.maxBytes < bytes then
        ([connection], .error (.bodyTooLarge settings.maxBytes.toNat))
      else if settings.allowRedirects = false ∨ status ∉ redirectStatusCodes then
        ([connection], .ok status)
      else
        let next := stripWhere isSpace (location.getD [])
        if next = [] then ([connection], .error (.missingLocation status))
        else
          match left with
          | 0 => ([connection], .error (.tooManyRedirects settings.maxRedirects.toNat))
          | left + 1 =>
            let rest := loop host settings hops left (n + 1) (host.urljoin url next)
              (request.redirected status)
            (connection :: rest.1, rest.2)

def safeHttpRequest (host : Host) (settings : Settings) (hops : Nat → Hop)
    (method url : List Char) (json content : Option β) :
    List (Connection β) × Except Failure Nat :=
  if settings.maxBytes < 0 ∨ settings.maxRedirects < 0 then ([], .error .negativeLimit)
  else
    let currentUrl := stripWhere isSpace url
    if currentUrl = [] then ([], .error .emptyUrl)
    else
      let named := (stripWhere isSpace method).map Char.toUpper
      loop host settings hops settings.maxRedirects.toNat 0 currentUrl
        ⟨if named = [] then "GET".toList else named, json, content⟩

/-! ### One hop -/

/-- A zone that does not end the host of a URL. -/
def PlainZone : Address → Prop
  | .v4 _ | .v6 _ none => True
  | .v6 _ (some scopeId) => '@' ∉ scopeId.text ∧ ']' ∉ scopeId.text

/-- No checked address lies in a denied network. -/
def Undenied (address : Address) : Prop :=
  ∀ network ∈ deniedNetworks, network.contains address = false

theorem undenied_iff {address : Address} : Undenied address ↔ blockedIpReason address = none := by
  rw [blockedIpReason, List.find?_eq_none]
  simp [Undenied]

variable {host : Host} {a : Address} {url : List Char}

theorem validateUrl_spec {split : Url} {name : List Char} {port : Option Nat}
    {literal : Option Address} (h : validateUrl host url = .ok (split, name, port, literal)) :
    hostname split.netloc = some name ∧ literal = ipAddress name ∧
      ∀ a, literal = some a → Undenied a := by
  unfold validateUrl at h
  cases hsplit : host.urlsplit (stripWhere isSpace url) with
  | none =>
    rw [hsplit] at h
    cases h
  | some split' =>
    rw [hsplit] at h
    simp only at h
    split at h
    · cases h
    cases hname : hostname split'.netloc with
    | none =>
      rw [hname] at h
      cases h
    | some name' =>
      rw [hname] at h
      simp only at h
      split at h
      · cases h
      cases hport : portOf split'.netloc with
      | error _ =>
        rw [hport] at h
        cases h
      | ok port' =>
        rw [hport] at h
        simp only at h
        cases hliteral : ipAddress name' with
        | none =>
          rw [hliteral] at h
          cases h
          exact ⟨hname, hliteral.symm, fun a ha => by cases ha⟩
        | some a =>
          rw [hliteral] at h
          simp only at h
          split at h
          · cases h
          · next hreason =>
            cases h
            refine ⟨hname, hliteral.symm, fun b hb => ?_⟩
            cases hb
            exact undenied_iff.mpr (by simpa using hreason)

variable {c : Char} {netloc : List Char} {settings : Settings} {target : SafeTarget}

theorem target_spec {useResolvedConnectUrl : Bool}
    {answer : List Char → Nat → Except Failure (List (List Char))}
    (h : validateAndResolveTarget host url answer useResolvedConnectUrl = .ok target) :
    ∃ name port values, hostname target.requestUrl.netloc = some name ∧
      answer name port = .ok values ∧ values.mapM (parseIpAddress name) = .ok target.resolved ∧
      target.literal = ipAddress name ∧
      (∀ a, target.literal = some a → Undenied a) ∧ (∀ a ∈ target.resolved, Undenied a) ∧
      if useResolvedConnectUrl = true ∧ lower target.requestUrl.scheme ≠ "https".toList then
        ∃ first rest, target.resolved = first :: rest ∧
          target.connectUrl.netloc = connectNetloc first port (lower target.requestUrl.scheme)
      else target.connectUrl = target.requestUrl := by
  unfold validateAndResolveTarget at h
  obtain ⟨⟨split, name, splitPort, literal⟩, hvalid, h⟩ := bind_eq_ok.mp h
  obtain ⟨hname, hliteral, hundenied⟩ := validateUrl_spec hvalid
  simp only at h
  obtain ⟨values, hanswer, h⟩ := bind_eq_ok.mp h
  obtain ⟨resolved, hresolved, h⟩ := bind_eq_ok.mp h
  split at h
  · cases h
  next hblocked =>
  have hall : ∀ a ∈ resolved, Undenied a := by
    intro a ha
    by_contra hdenied
    have hmem : a ∈ resolved.filter fun a => (blockedIpReason a).isSome := by
      refine List.mem_filter.mpr ⟨ha, ?_⟩
      rw [Option.isSome_iff_ne_none]
      exact fun hnone => hdenied (undenied_iff.mpr hnone)
    rw [not_ne_iff.mp hblocked] at hmem
    cases hmem
  split at h
  · next hresolve =>
    cases resolved with
    | nil => cases h
    | cons first rest =>
      cases h
      refine ⟨name, _, values, hname, hanswer, hresolved, hliteral, hundenied, hall, ?_⟩
      rw [if_pos hresolve]
      exact ⟨first, rest, rfl, rfl⟩
  · next hkeep =>
    cases h
    refine ⟨name, _, values, hname, hanswer, hresolved, hliteral, hundenied, hall, ?_⟩
    rw [if_neg hkeep]

/-! ### The host that the client reads -/

theorem lower_eq {t : List Char} (h : ∀ c ∈ t, lowerAscii c = [c]) : lower t = t := by
  induction t with
  | nil => rfl
  | cons c t ih =>
    have hrest := ih fun d hd => h d (List.mem_cons_of_mem _ hd)
    rw [lower] at hrest ⊢
    rw [List.flatMap_cons, h c List.mem_cons_self, hrest]
    rfl

theorem mem_hexDigits_of_isDigit (h : c.isDigit = true) : c ∈ hexDigits := by
  simp only [Char.isDigit, Bool.and_eq_true, decide_eq_true_eq] at h
  have hle : 48 ≤ c.toNat ∧ c.toNat ≤ 57 := ⟨h.1, h.2⟩
  have hchar : c = Char.ofNat c.toNat := (Char.ofNat_toNat c).symm
  obtain ⟨hlow, hhigh⟩ := hle
  rw [hchar]
  generalize c.toNat = n at hlow hhigh
  have hall : ∀ m ∈ List.range 58, 48 ≤ m → Char.ofNat m ∈ hexDigits := by decide
  exact hall n (List.mem_range.mpr (by omega)) hlow

/-- The characters of an address before its zone. -/
def addressChars : List Char := ':' :: '.' :: hexDigits

theorem text_parts (a : Address) : ∃ body zone, a.text = body ++ zone ∧
    (∀ c ∈ body, c ∈ addressChars) ∧ body ≠ [] ∧
    (zone = [] ∨ ∃ scope, zone = '%' :: scope ∧ (PlainZone a → '@' ∉ scope ∧ ']' ∉ scope)) := by
  cases a with
  | v4 ip =>
    refine ⟨text4 ip, [], (List.append_nil _).symm, fun c hc => ?_, fun hnil => ?_, .inl rfl⟩
    · rcases chars_of_parse4 (parse4_text4 ip) c hc with rfl | hdigit
      · exact List.mem_cons_of_mem _ List.mem_cons_self
      · exact List.mem_cons_of_mem _ (List.mem_cons_of_mem _ (mem_hexDigits_of_isDigit hdigit))
    · have hread := parse4_text4 ip
      rw [hnil] at hread
      cases hread
  | v6 ip scopeId =>
    have hbody : ∀ c ∈ text6 ip, c ∈ addressChars := by
      intro c hc
      rcases chars_text6 hc with rfl | hdigit
      · exact List.mem_cons_self
      · exact List.mem_cons_of_mem _ (List.mem_cons_of_mem _ hdigit)
    have hne : text6 ip ≠ [] := List.ne_nil_of_mem (colon_mem_text6 ip)
    cases scopeId with
    | none => exact ⟨text6 ip, [], (List.append_nil _).symm, hbody, hne, .inl rfl⟩
    | some scopeId =>
      exact ⟨text6 ip, '%' :: scopeId.text, rfl, hbody, hne, .inr ⟨scopeId.text, rfl, id⟩⟩

theorem takeWhile_ne_of_not_mem {x : Char} {before : List Char} (after : List Char)
    (h : x ∉ before) :
    (before ++ x :: after).takeWhile (· ≠ x) = before ∧
      (before ++ x :: after).dropWhile (· ≠ x) = x :: after := by
  have hall : ∀ c ∈ before, decide (c ≠ x) = true := by
    intro c hc
    simpa using fun heq : c = x => h (heq ▸ hc)
  constructor
  · rw [List.takeWhile_append_of_pos hall]
    simp
  · rw [List.dropWhile_append_of_pos hall]
    simp

theorem afterUserinfo_eq (h : '@' ∉ netloc) : afterUserinfo netloc = netloc := by
  unfold afterUserinfo
  split
  · next before after hsplit =>
    rw [rsplitOnce_eq hsplit] at h
    simp at h
  · rfl

theorem lower_body {body : List Char} (h : ∀ c ∈ body, c ∈ addressChars) : lower body = body := by
  refine lower_eq fun c hc => ?_
  have hall : ∀ d ∈ addressChars, lowerAscii d = [d] := by decide
  exact hall c (h c hc)

/-- The name that is read in front of a port is the address that was written there. -/
theorem hostname_of_hostinfo (h : (hostinfo netloc).1 = a.text) :
    hostname netloc = some a.text := by
  obtain ⟨body, zone, htext, hbody, hne, hzone⟩ := text_parts a
  have hpercent : '%' ∉ body := by
    intro hc
    have hnot : '%' ∉ addressChars := by decide
    exact hnot (hbody '%' hc)
  have hname : a.text ≠ [] := by
    rw [htext]
    exact List.append_ne_nil_of_left_ne_nil hne zone
  unfold hostname
  rw [h, if_neg hname]
  rcases hzone with rfl | ⟨scope, rfl, -⟩
  · rw [List.append_nil] at htext
    have hall : ∀ c ∈ a.text, decide (c ≠ '%') = true := by
      intro c hc
      rw [htext] at hc
      simpa using fun heq : c = '%' => hpercent (heq ▸ hc)
    rw [List.takeWhile_eq_self_iff.mpr hall, List.dropWhile_eq_nil_iff.mpr hall, htext,
      lower_body hbody, List.append_nil]
  · obtain ⟨htake, hdrop⟩ := takeWhile_ne_of_not_mem scope hpercent
    rw [htext, htake, hdrop, lower_body hbody]

theorem not_mem_port (hc : c.isDigit = false) (port : Nat) : c ∉ Nat.toDigits 10 port := by
  intro h
  rw [Nat.isDigit_of_mem_toDigits (by decide) (by decide) h] at hc
  cases hc

theorem not_mem_text (hplain : PlainZone a) (hc : c = '@' ∨ c = ']') : c ∉ a.text := by
  obtain ⟨body, zone, htext, hbody, -, hzone⟩ := text_parts a
  have hchars : '@' ∉ addressChars ∧ ']' ∉ addressChars := by decide
  rw [htext]
  intro h
  rcases List.mem_append.mp h with h | h
  · rcases hc with rfl | rfl
    · exact hchars.1 (hbody _ h)
    · exact hchars.2 (hbody _ h)
  · rcases hzone with rfl | ⟨scope, rfl, hscope⟩
    · cases h
    · rcases List.mem_cons.mp h with h | h
      · rcases hc with rfl | rfl <;> cases h
      · rcases hc with rfl | rfl
        · exact (hscope hplain).1 h
        · exact (hscope hplain).2 h

/-- **The client reads in the connect URL the very address that was put there.** -/
theorem hostname_connectNetloc (hplain : PlainZone a) (port : Nat) (scheme : List Char) :
    hostname (connectNetloc a port scheme) = some a.text := by
  refine hostname_of_hostinfo ?_
  have hat : '@' ∉ a.text := not_mem_text hplain (.inl rfl)
  have hport : '@' ∉ Nat.toDigits 10 port := not_mem_port rfl port
  by_cases hcolon : ':' ∈ a.text
  · have hnetloc : connectNetloc a port scheme =
        '[' :: (a.text ++ ']' :: ':' :: Nat.toDigits 10 port) := by
      simp [connectNetloc, hostHeader, hcolon]
    have huser : '@' ∉ '[' :: (a.text ++ ']' :: ':' :: Nat.toDigits 10 port) := by
      simp [hat, hport]
    rw [hnetloc, hostinfo, afterUserinfo_eq huser]
    exact (takeWhile_ne_of_not_mem _ (not_mem_text hplain (.inr rfl))).1
  · have hnetloc : connectNetloc a port scheme = a.text ++ ':' :: Nat.toDigits 10 port := by
      simp [connectNetloc, hostHeader, hcolon]
    have huser : '@' ∉ a.text ++ ':' :: Nat.toDigits 10 port := by simp [hat, hport]
    have hopen : '[' ∉ a.text := by
      intro h
      cases a with
      | v4 ip =>
        rcases chars_of_parse4 (parse4_text4 ip) '[' h with hdot | hdigit
        · cases hdot
        · cases hdigit
      | v6 ip scopeId =>
        cases scopeId with
        | none => exact hcolon (colon_mem_text6 ip)
        | some scopeId => exact hcolon (List.mem_append_left _ (colon_mem_text6 ip))
    have hbracket : (a.text ++ ':' :: Nat.toDigits 10 port).dropWhile (· ≠ '[') = [] := by
      refine List.dropWhile_eq_nil_iff.mpr fun c hc => ?_
      have hne : '[' ∉ a.text ++ ':' :: Nat.toDigits 10 port := by
        simp [hopen, not_mem_port (c := '[') rfl port]
      simpa using fun heq : c = '[' => hne (heq ▸ hc)
    rw [hnetloc, hostinfo, afterUserinfo_eq huser]
    simp only [hbracket]
    exact (takeWhile_ne_of_not_mem _ hcolon).1

/-! ### Every connection -/

/-- What a connection can rely on: every address that was judged for it is in no denied network;
they are those of its own lookup; and it goes to the first of them, unless the name is left in the
URL, which goes where the name then leads. -/
structure Guarded (settings : Settings) (hop : Hop) (connection : Connection β) : Prop where
  literal : ∀ a, connection.target.literal = some a → Undenied a
  resolved : ∀ a ∈ connection.target.resolved, Undenied a
  answered : ∃ name port values, hostname connection.target.requestUrl.netloc = some name ∧
    hop.answer name port = .ok values ∧
    values.mapM (parseIpAddress name) = .ok connection.target.resolved ∧
    connection.target.literal = ipAddress name
  pinned : settings.customTransport = false →
    lower connection.target.requestUrl.scheme ≠ "https".toList →
    ∃ first rest, connection.target.resolved = first :: rest ∧
      (PlainZone first → connection.address = first)
  named : settings.customTransport = true ∨
      lower connection.target.requestUrl.scheme = "https".toList →
    ∃ name, hostname connection.target.requestUrl.netloc = some name ∧
      connection.address = connection.target.literal.getD (hop.lookup name)

theorem guarded_of_target {hop : Hop} (request : Request β)
    (h : validateAndResolveTarget host url hop.answer (!settings.customTransport) = .ok target) :
    Guarded settings hop ⟨target, request, clientAddress target.connectUrl.netloc hop.lookup⟩ := by
  obtain ⟨name, port, values, hname, hanswer, hvalues, hliteral, hundenied, hall, hconnect⟩ :=
    target_spec h
  refine ⟨hundenied, hall, ⟨name, port, values, hname, hanswer, hvalues, hliteral⟩, ?_, ?_⟩
  · intro htransport hscheme
    rw [if_pos ⟨by rw [htransport]; rfl, hscheme⟩] at hconnect
    obtain ⟨first, rest, hresolved, hnetloc⟩ := hconnect
    refine ⟨first, rest, hresolved, fun hplain => ?_⟩
    show clientAddress target.connectUrl.netloc hop.lookup = first
    rw [clientAddress, hnetloc, hostname_connectNetloc hplain]
    simp only [Option.getD_some, ipAddress_text]
  · intro hkeep
    rw [if_neg ?_] at hconnect
    · refine ⟨name, hname, ?_⟩
      show clientAddress target.connectUrl.netloc hop.lookup = _
      rw [clientAddress, hconnect, hname, hliteral]
      rfl
    · rintro ⟨htransport, hscheme⟩
      rcases hkeep with hcustom | hhttps
      · rw [hcustom] at htransport
        cases htransport
      · exact hscheme hhttps

theorem getElem_cons_some {α : Type} {x y : α} {rest : List α} {i : Nat}
    (h : (x :: rest)[i]? = some y) : (i = 0 ∧ y = x) ∨ ∃ j, i = j + 1 ∧ rest[j]? = some y := by
  cases i with
  | zero => exact .inl ⟨rfl, (Option.some.inj h).symm⟩
  | succ j => exact .inr ⟨j, rfl, h⟩

theorem loop_cases (host : Host) (settings : Settings) (hops : Nat → Hop) (left n : Nat)
    (url : List Char) (request : Request β) :
    (loop host settings hops left n url request).1 = [] ∨
      ∃ connection rest, (loop host settings hops left n url request).1 = connection :: rest ∧
        Guarded settings (hops n) connection ∧
        (rest = [] ∨ ∃ left' url' request', left = left' + 1 ∧
          rest = (loop host settings hops left' (n + 1) url' request').1) := by
  generalize hresult : loop host settings hops left n url request = result
  unfold loop at hresult
  split at hresult
  · rw [← hresult]
    exact .inl rfl
  next target htarget =>
  have hguard := guarded_of_target request htarget
  refine .inr ⟨⟨target, request, clientAddress target.connectUrl.netloc (hops n).lookup⟩, ?_⟩
  dsimp only at hresult
  iterate 5
    split at hresult
    · exact ⟨[], by rw [← hresult], hguard, .inl rfl⟩
  exact ⟨_, by rw [← hresult], hguard, .inr ⟨_, _, _, rfl, rfl⟩⟩

theorem loop_guarded {hops : Nat → Hop} {left n : Nat} {request : Request β} {i : Nat}
    {connection : Connection β}
    (h : (loop host settings hops left n url request).1[i]? = some connection) :
    i ≤ left ∧ Guarded settings (hops (n + i)) connection := by
  induction left using Nat.strongRecOn generalizing n url request i with
  | ind left ih =>
    rcases loop_cases host settings hops left n url request with
      hnil | ⟨first, rest, heq, hguard, hrest⟩
    · rw [hnil] at h
      cases h
    rw [heq] at h
    rcases getElem_cons_some h with ⟨rfl, rfl⟩ | ⟨j, rfl, hj⟩
    · exact ⟨Nat.zero_le _, hguard⟩
    · rcases hrest with rfl | ⟨left', url', request', rfl, rfl⟩
      · cases hj
      · obtain ⟨hle, hnext⟩ := ih left' (Nat.lt_succ_self left') hj
        rw [Nat.add_assoc, Nat.add_comm 1 j] at hnext
        exact ⟨Nat.succ_le_succ hle, hnext⟩

/-- **Every connection of a guarded request is guarded**, however many redirects lead to it and
whatever the resolver answers at each of them; and there are no more of them than redirects
allowed, and one. -/
theorem connections_guarded (host : Host) (settings : Settings) (hops : Nat → Hop)
    (method url : List Char) (json content : Option β) (i : Nat) (connection : Connection β)
    (h : (safeHttpRequest host settings hops method url json content).1[i]? = some connection) :
    i ≤ settings.maxRedirects.toNat ∧ Guarded settings (hops i) connection := by
  unfold safeHttpRequest at h
  split at h
  · cases h
  · dsimp only at h
    split at h
    · cases h
    · have hguarded := loop_guarded h
      rwa [Nat.zero_add] at hguarded

/-! ### One request, and two that reach a denied host -/

/-- Absolute URLs with a path, and absolute locations. -/
def plainHost : Host where
  urlsplit t :=
    let rest := (t.dropWhile (· ≠ ':')).drop 3
    some ⟨t.takeWhile (· ≠ ':'), rest.takeWhile (· ≠ '/'), rest.dropWhile (· ≠ '/'), []⟩
  urljoin _ location := location

def plainSettings : Settings := ⟨1024, 5, true, false⟩

/-- A host that resolves to `value`, and to the loopback address when it is looked up again. -/
def rebindingHop (value : String) : Hop where
  answer _ _ := .ok [value.toList]
  lookup _ := .v4 (BitVec.ofNat 32 (ofBigEndian 256 [127, 0, 0, 1]))
  reply := .response 200 none 0

/-- The connections of one `GET` to such a host. -/
def connectionsTo (url value : String) : List (Connection Unit) :=
  (safeHttpRequest plainHost plainSettings (fun _ => rebindingHop value) "GET".toList url.toList
    none none).1

theorem plain_guarded : ∃ connection, (connectionsTo "http://a.example/" "93.184.216.34")[0]? =
      some connection ∧ (0 ≤ (5 : Int).toNat) ∧
    Guarded plainSettings (rebindingHop "93.184.216.34") connection := by
  have hopened : ((connectionsTo "http://a.example/" "93.184.216.34")[0]?).isSome = true := by
    decide +kernel
  obtain ⟨connection, hconnection⟩ := Option.isSome_iff_exists.mp hopened
  exact ⟨connection, hconnection, connections_guarded plainHost plainSettings _ _ _ _ _ 0 connection
    hconnection⟩

/-- The address of version 4 that an address stands for: mapped, translated by NAT64, or in the
compatible form. -/
def carriedIpv4 : Address → Option (BitVec 32)
  | .v4 ip => some ip
  | .v6 ip _ =>
    if ip.toNat / 2 ^ 32 = 0xFFFF ∨ (net6 [0x64, 0xff9b] 96).contains ip = true ∨
        (ip.toNat / 2 ^ 32 = 0 ∧ 1 < ip.toNat) then some (BitVec.ofNat 32 ip.toNat)
    else none

def denotesDenied (address : Address) : Bool :=
  (blockedIpReason address).isSome ||
    (carriedIpv4 address).any fun ip => (blockedIpReason (.v4 ip)).isSome

/-- The connection goes to an address that was judged, and that is no denied host. -/
def Safe (connection : Connection β) : Prop :=
  connection.address ∈ connection.target.literal.toList ++ connection.target.resolved ∧
    denotesDenied connection.address = false

instance (connection : Connection β) : Decidable (Safe connection) :=
  inferInstanceAs (Decidable (_ ∧ _))

theorem rebound_and_mapped :
    (¬ ∀ connection ∈ connectionsTo "https://a.example/" "93.184.216.34", Safe connection) ∧
    ¬ ∀ connection ∈ connectionsTo "http://a.example/" "::ffff:127.0.0.1", Safe connection := by
  constructor <;> decide +kernel

end AlysisCode.SafeHttp
