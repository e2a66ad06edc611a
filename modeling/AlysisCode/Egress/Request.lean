/-
What the egress proxy makes of the bytes of a client.

The header is read up to its first blank line, and a request is taken from it only where the
target, the `Host` field and the normalised destination agree; every other byte stream ends in a
status and is never resolved.
-/
import AlysisCode.Library.IpAddress
import AlysisCode.Library.Text
import AlysisCode.Library.Unicode

namespace AlysisCode.Egress

open Ip

/-- How a request fails: `_RequestFailure(status)`, or another exception. -/
inductive Failure where
  | request (status : Nat)
  | exception
  deriving DecidableEq

/-- The fields of `BrowserEgressProxyLimits` that bound what is read, held and asked. -/
structure Limits where
  (maxHeaderBytes maxHeaderLineBytes maxHeaderCount maxConnections maxResolutions
    maxResolvedAddresses : Nat)
  headerBytes : 1024 ≤ maxHeaderBytes ∧ maxHeaderBytes ≤ 1024 * 1024
  headerLine : 256 ≤ maxHeaderLineBytes ∧ maxHeaderLineBytes ≤ maxHeaderBytes
  headerCount : 1 ≤ maxHeaderCount ∧ maxHeaderCount ≤ 1000
  connections : 1 ≤ maxConnections ∧ maxConnections ≤ 256
  resolutions : 1 ≤ maxResolutions ∧ maxResolutions ≤ 32
  resolvedAddresses : 1 ≤ maxResolvedAddresses ∧ maxResolvedAddresses ≤ 128

/-- The defaults of `BrowserEgressProxyLimits`. -/
def Limits.standard : Limits where
  maxHeaderBytes := 64 * 1024
  maxHeaderLineBytes := 8 * 1024
  maxHeaderCount := 100
  maxConnections := 32
  maxResolutions := 4
  maxResolvedAddresses := 16
  headerBytes := by decide
  headerLine := by decide
  headerCount := by decide
  connections := by decide
  resolutions := by decide
  resolvedAddresses := by decide

/-- What `urlsplit` says of a target. -/
structure SplitResult where
  (scheme netloc path query fragment : List Char)
  (username password hostname : Option (List Char))
  port : Option Nat

/-- What Python's library computes on texts of any script: `none` is a `UnicodeError` of `idna`,
and a `ValueError` of `urlsplit` or of the port it is asked for. -/
structure Host where
  lower : List Char → List Char
  idna : List Char → Option (List Char)
  urlsplit : List Char → Option SplitResult

/-! ### The destination -/

/-- `_DNS_LABEL_RE.fullmatch` -/
def isDnsLabel (label : List Char) : Bool :=
  let alnum (c : Char) : Bool := ('a' ≤ c && c ≤ 'z') || ('0' ≤ c && c ≤ '9')
  label.length ≤ 63 && label.head?.any alnum && label.getLast?.any alnum &&
    label.all fun c => alnum c || c == '-'

variable (host : Host) (limits : Limits)

def normalizeHostPort (name : Option (List Char)) (port : Nat) : Except Failure (List Char × Nat) :=
  match name with
  | none => throw (.request 400)
  | some name =>
    if name = [] ∨ ¬ (1 ≤ port ∧ port ≤ 65535) then throw (.request 400)
    else
      let normalized := host.lower (name.reverse.dropWhile (· == '.')).reverse
      match ipAddress normalized with
      | some address => return (address.text, port)
      | none =>
        match host.idna normalized with
        | none => throw (.request 400)
        | some ascii =>
          if ascii = [] ∨ 253 < ascii.length ∨ ¬ (ascii.splitOn '.').all isDnsLabel then
            throw (.request 400)
          else return (ascii, port)

/-! ### Bytes -/

/-- The bytes of an ASCII text. -/
def ascii (t : String) : List UInt8 := t.toList.map fun c => UInt8.ofNat c.toNat

/-- `value.decode("ascii")` -/
def decodeAscii (value : List UInt8) : Option (List Char) :=
  if value.all (· < 128) then some (value.map fun b => Char.ofNat b.toNat) else none

/-- `text.encode("ascii")` -/
def encodeAscii (t : List Char) : Option (List UInt8) :=
  if t.all (·.toNat < 128) then some (t.map fun c => UInt8.ofNat c.toNat) else none

/-- `value.lower()` -/
def lowerBytes (value : List UInt8) : List UInt8 :=
  value.map fun b => if 65 ≤ b && b ≤ 90 then b + 32 else b

/-- `value.strip(b" \t")`, or whatever else is stripped. -/
def stripBytes (blank : UInt8 → Bool) (value : List UInt8) : List UInt8 :=
  ((value.dropWhile blank).reverse.dropWhile blank).reverse

/-- `_TOKEN_RE.fullmatch` -/
def isToken (value : List UInt8) : Bool :=
  !value.isEmpty && value.all fun b =>
    (ascii "!#$%&'*+.^_`|~-").contains b || (48 ≤ b && b ≤ 57) || (65 ≤ b && b ≤ 90) ||
      (97 ≤ b && b ≤ 122)

/-- `value.isdigit()` -/
def isDigits (value : List UInt8) : Bool := !value.isEmpty && value.all fun b => 48 ≤ b && b ≤ 57

/-- `payload.find(b"\r\n\r\n")` -/
def findMarker : List UInt8 → Option Nat
  | 13 :: 10 :: 13 :: 10 :: _ => some 0
  | _ :: rest => (findMarker rest).map (· + 1)
  | [] => none

/-- `value.split(b"\r\n")`, after the bytes of a line that is begun -/
def splitCrlf (line : List UInt8) : List UInt8 → List (List UInt8)
  | 13 :: 10 :: rest => line :: splitCrlf [] rest
  | b :: rest => splitCrlf (line ++ [b]) rest
  | [] => [line]

/-! ### Reading the header -/

/-- What the bytes read so far amount to, in `_read_header`. -/
inductive Reading where
  | header (raw buffered : List UInt8)
  | failed (status : Nat)
  | more

/-- One round of the loop of `_read_header`. -/
def readHeader (payload : List UInt8) : Reading :=
  match findMarker payload with
  | some marker =>
    if limits.maxHeaderBytes < marker + 4 then .failed 431
    else .header (payload.take (marker + 4)) (payload.drop (marker + 4))
  | none => if limits.maxHeaderBytes ≤ payload.length then .failed 431 else .more

/-! ### The request -/

structure ParsedRequest where
  method : List UInt8
  scheme : List Char
  host : List Char
  port : Nat
  upstreamHeader : Option (List UInt8)
  bufferedBody : List UInt8
  connectTunnel : Bool
  deriving DecidableEq

/-- `int(t)`, of digits: a `ValueError` is no failure of the request. -/
def intOf (t : List Char) : Except Failure Nat :=
  match Text.intOfDigits t with
  | some n => return n
  | none => throw .exception

def portOf (default : Option Nat) (suffix : List Char) : Except Failure Nat :=
  match suffix, default with
  | ':' :: digits, _ => if Text.isdigit digits then intOf digits else throw (.request 400)
  | _ :: _, _ => throw (.request 400)
  | [], some port => return port
  | [], none => throw (.request 400)

def parseAuthority (value : List UInt8) (default : Option Nat) :
    Except Failure (List Char × Nat) := do
  let some text := decodeAscii value | throw (.request 400)
  if text = [] ∨ text.any (fun c => c.toNat < 0x21 || c.toNat == 0x7F) ∨
      text.any ("/?#@\\,".toList.contains ·) then
    throw (.request 400)
  match text with
  | '[' :: inner =>
    let hostText := inner.takeWhile (· ≠ ']')
    let closed := inner.dropWhile (· ≠ ']')
    if closed = [] ∨ hostText = [] ∨ ']' ∈ closed.tail then throw (.request 400)
    let port ← portOf default closed.tail
    match ipv6Address hostText with
    | some address => normalizeHostPort host (some address.text) port
    | none => throw (.request 400)
  | _ =>
    if 1 < text.count ':' then throw (.request 400)
    let port ← portOf default (text.dropWhile (· ≠ ':'))
    normalizeHostPort host (some (text.takeWhile (· ≠ ':'))) port

/-- One header line, in `_parse_request`: the name in lower case, and the value. -/
def parseHeaderLine (line : List UInt8) : Except Failure (List UInt8 × List UInt8) := do
  let blank (b : UInt8) : Bool := b == 32 || b == 9
  if line = [] ∨ limits.maxHeaderLineBytes < line.length ∨ line.head?.any blank then
    throw (.request 400)
  if 58 ∉ line then throw (.request 400)
  let name := line.takeWhile (· ≠ 58)
  let value := (line.dropWhile (· ≠ 58)).tail
  let stripped := stripBytes blank value
  if ¬ isToken name ∨ (value = [] ∨ value.head?.any blank) ∧ stripped = [] then
    throw (.request 400)
  if stripped.any fun b => (b < 0x20 && b != 0x09) || b == 0x7F then throw (.request 400)
  return (lowerBytes name, stripped)

def connectionTokens (values : List (List UInt8)) : Except Failure (List (List UInt8)) :=
  (values.flatMap (·.splitOn 44)).mapM fun item =>
    let token := lowerBytes (stripBytes (fun b => b == 32 || (9 ≤ b && b ≤ 13)) item)
    if isToken token then return token else throw (.request 400)

def methods : List (List UInt8) :=
  ["GET", "HEAD", "POST", "PUT", "PATCH", "DELETE", "OPTIONS"].map ascii

/-- The fields that are not passed on, besides those the `Connection` field names. -/
def hopHeaders : List (List UInt8) :=
  ["connection", "keep-alive", "proxy-authenticate", "proxy-authorization", "proxy-connection",
    "te", "trailer"].map ascii

def upstreamHeader (method target : List UInt8) (headers : List (List UInt8 × List UInt8))
    (blocked : List (List UInt8)) (websocket : Bool) : List UInt8 :=
  let output := (method ++ [32] ++ target ++ ascii " HTTP/1.1") ::
    (headers.filter fun h => h.1 ∉ blocked ∧ h.1 ≠ ascii "upgrade").map fun h =>
      h.1 ++ ascii ": " ++ h.2
  let closing := if websocket then [ascii "connection: Upgrade", ascii "upgrade: websocket"]
    else [ascii "connection: close"]
  (ascii "\r\n").intercalate (output ++ closing) ++ ascii "\r\n\r\n"

def parseRequest (rawHeader buffered : List UInt8) : Except Failure ParsedRequest := do
  if ¬ ascii "\r\n\r\n" <:+ rawHeader ∨ 0 ∈ rawHeader then throw (.request 400)
  let lines := splitCrlf [] (rawHeader.take (rawHeader.length - 4))
  let first := lines.headD []
  if limits.maxHeaderLineBytes < first.length then throw (.request 414)
  let [method, target, version] := first.splitOn 32 | throw (.request 400)
  if method = [] ∨ target = [] ∨ version = [] then throw (.request 400)
  if ¬ isToken method ∨ version ≠ ascii "HTTP/1.1" then throw (.request 400)
  if limits.maxHeaderLineBytes < target.length ∨ target.any (fun b => b < 0x21 || b == 0x7F) then
    throw (.request 400)
  if limits.maxHeaderCount < lines.length - 1 then throw (.request 431)
  let headers ← lines.tail.mapM (parseHeaderLine limits)
  let grouped (name : String) : List (List UInt8) :=
    (headers.filter (·.1 = ascii name)).map (·.2)
  if ["host", "content-length", "transfer-encoding", "upgrade"].any fun name =>
      1 < (grouped name).length then
    throw (.request 400)
  let [hostField] := grouped "host" | throw (.request 400)
  if grouped "content-length" ≠ [] ∧ grouped "transfer-encoding" ≠ [] then throw (.request 400)
  if (grouped "content-length").head?.any (!isDigits ·) then throw (.request 400)
  if (grouped "transfer-encoding").head?.any (lowerBytes · ≠ ascii "chunked") then
    throw (.request 400)
  let tokens ← connectionTokens (grouped "connection")
  if ["host", "content-length", "transfer-encoding"].any fun name => tokens.contains (ascii name) then
    throw (.request 400)
  if method = ascii "CONNECT" then
    if grouped "content-length" ≠ [] ∨ grouped "transfer-encoding" ≠ [] ∨ grouped "upgrade" ≠ [] then
      throw (.request 400)
    let destination ← parseAuthority host target none
    let named ← parseAuthority host hostField none
    if destination ≠ named then throw (.request 400)
    return ⟨method, "https".toList, destination.1, destination.2, none, buffered, true⟩
  if method ∉ methods then throw (.request 405)
  let some targetText := decodeAscii target | throw (.request 400)
  let some parsed := host.urlsplit targetText | throw (.request 400)
  let scheme := host.lower parsed.scheme
  if (scheme ≠ "http".toList ∧ scheme ≠ "ws".toList) ∨ parsed.netloc = [] ∨ parsed.fragment ≠ [] then
    throw (.request 400)
  if parsed.username.isSome ∨ parsed.password.isSome ∨ '\\' ∈ parsed.netloc then
    throw (.request 400)
  -- A port of zero counts as none.
  let port := if parsed.port.getD 0 = 0 then 80 else parsed.port.getD 0
  let destination ← normalizeHostPort host parsed.hostname port
  let named ← parseAuthority host hostField (some 80)
  if destination ≠ named then throw (.request 400)
  let upgrade := lowerBytes ((grouped "upgrade").headD [])
  let websocket := scheme = "ws".toList ∨ upgrade = ascii "websocket"
  if ¬ (websocket ↔ upgrade = ascii "websocket" ∧ ascii "upgrade" ∈ tokens) then
    throw (.request 400)
  let path := if parsed.path = [] then ['/'] else parsed.path
  let path := if parsed.query = [] then path else path ++ '?' :: parsed.query
  let some originTarget := encodeAscii path | throw (.request 400)
  return ⟨method, scheme, destination.1, destination.2,
    some (upstreamHeader method originTarget headers (hopHeaders ++ tokens) websocket), buffered,
    false⟩

end AlysisCode.Egress
