/-
The target of a guarded request.

A URL is judged before anything is connected: its scheme and the host it names, and every address
that the resolver gives for that host.  What the request then connects to is the first of those
addresses, or, where the host name is needed for the certificate, the name itself.
-/
import AlysisCode.Ide.Common
import AlysisCode.Library.IpAddress
import AlysisCode.Library.Runs
import AlysisCode.Library.Text
import AlysisCode.Library.Unicode

namespace AlysisCode.SafeHttp

open Ip Runs Text

/-! ### The parts of a URL -/

/-- What `urlunsplit` puts together, the fragment apart. -/
structure Url where
  (scheme netloc path query : List Char)
  deriving DecidableEq

/-- `urlsplit` and `urljoin`; `none` is a `ValueError`. -/
structure Host where
  urlsplit : List Char → Option Url
  urljoin : List Char → List Char → List Char

/-- `str.lower`, of ASCII -/
def lower (t : List Char) : List Char := t.flatMap lowerAscii

/-- What stands after the last `@`: where the host and the port are. -/
def afterUserinfo (netloc : List Char) : List Char :=
  match rsplitOnce ['@'] netloc with
  | some (_, after) => after
  | none => netloc

/-- `_hostinfo`: the host and the text of the port, if there is one. -/
def hostinfo (netloc : List Char) : List Char × Option (List Char) :=
  let info := afterUserinfo netloc
  match info.dropWhile (· ≠ '[') with
  | _ :: bracketed =>
    let port := ((bracketed.dropWhile (· ≠ ']')).tail.dropWhile (· ≠ ':')).tail
    (bracketed.takeWhile (· ≠ ']'), if port = [] then none else some port)
  | [] =>
    let port := (info.dropWhile (· ≠ ':')).tail
    (info.takeWhile (· ≠ ':'), if port = [] then none else some port)

/-- `hostname`: in lower case up to its zone. -/
def hostname (netloc : List Char) : Option (List Char) :=
  let name := (hostinfo netloc).1
  if name = [] then none
  else some (lower (name.takeWhile (· ≠ '%')) ++ name.dropWhile (· ≠ '%'))

/-- `port`; the error is a `ValueError`. -/
def portOf (netloc : List Char) : Except Unit (Option Nat) :=
  match (hostinfo netloc).2 with
  | none => return none
  | some port =>
    if port.all Char.isDigit then
      match intOfDigits port with
      | some n => if n ≤ 65535 then return some n else throw ()
      | none => throw ()
    else throw ()

/-! ### The guard -/

/-- A network of either version. -/
inductive AnyNetwork where
  | v4 (network : Network 32)
  | v6 (network : Network 128)

/-- `address.version == network.version and address in network` -/
def AnyNetwork.contains : AnyNetwork → Address → Bool
  | .v4 network, .v4 ip => network.contains ip
  | .v6 network, .v6 ip _ => network.contains ip
  | _, _ => false

def deniedNetworks : List AnyNetwork := [
  .v4 (net4 127 0 0 0 8), .v6 (net6 [0, 0, 0, 0, 0, 0, 0, 1] 128), .v4 (net4 169 254 0 0 16),
  .v6 (net6 [0xfe80] 10), .v4 (net4 10 0 0 0 8), .v4 (net4 172 16 0 0 12),
  .v4 (net4 192 168 0 0 16), .v6 (net6 [0xfc00] 7), .v4 (net4 0 0 0 0 32), .v6 (net6 [] 128),
  .v4 (net4 224 0 0 0 4), .v6 (net6 [0xff00] 8)]

def blockedIpReason (address : Address) : Option AnyNetwork :=
  deniedNetworks.find? (·.contains address)

/-- How a request fails: `SafeHttpError`, with what its message says, or another exception. -/
inductive Failure where
  | negativeLimit
  | emptyUrl
  | unsupportedScheme (scheme : List Char)
  | missingHostname
  | embeddedCredentials
  | invalidPort
  | blocked (host : List Char) (addresses : List Address)
  | nonIpAddress (host value : List Char)
  | bodyTooLarge (maxBytes : Nat)
  | missingLocation (status : Nat)
  | tooManyRedirects (maxRedirects : Nat)
  | exception

/-- `recoverable`: another URL or host may do. -/
def Failure.recoverable : Failure → Bool
  | .negativeLimit | .emptyUrl | .exception => false
  | _ => true

def hostHeader (host : List Char) (port : Option Nat) (scheme : List Char) (forcePort : Bool) :
    List Char :=
  let bracketed := if ':' ∈ host ∧ host.head? ≠ some '[' then '[' :: host ++ [']'] else host
  let defaultPort := if scheme = "https".toList then 443 else 80
  match port with
  | none => bracketed
  | some n =>
    if n = defaultPort ∧ forcePort = false then bracketed
    else bracketed ++ ':' :: Nat.toDigits 10 n

/-- `_SafeTarget`, and the addresses that were judged for it. -/
structure SafeTarget where
  requestUrl : Url
  connectUrl : Url
  hostHeader : List Char
  literal : Option Address
  resolved : List Address

/-- The netloc of an `http` request: the address itself, and the port. -/
def connectNetloc (address : Address) (port : Nat) (scheme : List Char) : List Char :=
  let connectHost := if ':' ∈ address.text then '[' :: address.text ++ [']'] else address.text
  hostHeader connectHost (some port) scheme true

/-- The checks of `_validate_and_resolve_target` before it resolves: the parts of the URL, the
host, the port and the literal the host may be. -/
def validateUrl (host : Host) (url : List Char) :
    Except Failure (Url × List Char × Option Nat × Option Address) := do
  let some split := host.urlsplit (stripWhere isSpace url) | throw .exception
  let scheme := lower split.scheme
  if scheme ≠ "http".toList ∧ scheme ≠ "https".toList then throw (.unsupportedScheme split.scheme)
  let some name := hostname split.netloc | throw .missingHostname
  if '@' ∈ split.netloc then throw .embeddedCredentials
  let .ok port := portOf split.netloc | throw .invalidPort
  match ipAddress name with
  | some literal =>
    if (blockedIpReason literal).isSome then throw (.blocked name [literal])
    return (split, name, port, some literal)
  | none => return (split, name, port, none)

def parseIpAddress (name value : List Char) : Except Failure Address :=
  match ipAddress value with
  | some address => return address
  | none => throw (.nonIpAddress name value)

/-- `_validate_and_resolve_target`.  `answer` is what the resolver gives, or its exception. -/
def validateAndResolveTarget (host : Host) (url : List Char)
    (answer : List Char → Nat → Except Failure (List (List Char))) (useResolvedConnectUrl : Bool) :
    Except Failure SafeTarget := do
  let (split, name, splitPort, literal) ← validateUrl host url
  let scheme := lower split.scheme
  let port := splitPort.getD (if scheme = "https".toList then 443 else 80)
  let addresses ← answer name port
  let resolved ← addresses.mapM (parseIpAddress name)
  let blocked := resolved.filter fun a => (blockedIpReason a).isSome
  if blocked ≠ [] then throw (.blocked name blocked)
  let header := hostHeader name splitPort scheme false
  if useResolvedConnectUrl ∧ scheme ≠ "https".toList then
    match resolved with
    | [] => throw .exception
    | first :: _ =>
      return ⟨split, { split with netloc := connectNetloc first port scheme }, header, literal,
        resolved⟩
  else
    -- The name is kept for the certificate; what it resolved to has been judged all the same.
    return ⟨split, split, header, literal, resolved⟩

end AlysisCode.SafeHttp
