import Mathlib.Algebra.Group.Nat.Defs
import Rvx.Registry.AuthSessions
import Rvx.Server.LoginThrottle

/-!
# Access to the server

Every request passes `protect` before a handler sees it.  It checks the Host, the credentials and
the origin of the request.  The parsers of addresses are the standard library's; the parser of URLs,
the digests and the decoder of Basic credentials are those of other packages and are parameters.
-/

namespace Rvx.Server

open Registry

abbrev Bytes : Type := List UInt8

/-- The bytes of an ASCII text. -/
def ascii (text : String) : Bytes := text.toList.map fun c ↦ c.toNat.toUInt8

/-! ## Texts -/

/-- `str::to_ascii_lowercase` on one byte. -/
def lowerByte (byte : UInt8) : UInt8 := if 65 ≤ byte ∧ byte ≤ 90 then byte + 32 else byte

def eqIgnoreAsciiCase (a b : Bytes) : Bool := a.map lowerByte = b.map lowerByte

/-- A blank or a tab, the only white space in the text of a header. -/
def isBlank (byte : UInt8) : Bool := byte = 32 || byte = 9

/-- `str::trim`. -/
def trimBytes (text : Bytes) : Bytes :=
  ((text.dropWhile isBlank).reverse.dropWhile isBlank).reverse

/-- `str::split_once`. -/
def splitOnce (separator : UInt8) (text : Bytes) : Option (Bytes × Bytes) :=
  if separator ∈ text then
    some (text.takeWhile fun byte ↦ byte ≠ separator,
      (text.dropWhile fun byte ↦ byte ≠ separator).tail)
  else none

/-! ## Addresses -/

namespace AddressParser

/-- `char::to_digit`. -/
def toDigit (radix : ℕ) (byte : UInt8) : Option ℕ :=
  let digit :=
    if 48 ≤ byte ∧ byte ≤ 57 then some (byte.toNat - 48)
    else if 97 ≤ byte ∧ byte ≤ 122 then some (byte.toNat - 87)
    else if 65 ≤ byte ∧ byte ≤ 90 then some (byte.toNat - 55)
    else none
  digit.filter fun value ↦ value < radix

/-- `read_number`: the digits up to the first other byte, at most `maximum` of them. -/
def readNumber (radix maximum : ℕ) (zeroPrefix : Bool) (text : Bytes) : Option (ℕ × Bytes) :=
  let digits := (text.takeWhile fun byte ↦ (toDigit radix byte).isSome).filterMap (toDigit radix)
  if digits.length = 0 ∨ maximum < digits.length then none
  else if zeroPrefix = false ∧ digits.head? = some 0 ∧ 1 < digits.length then none
  else some (digits.foldl (fun value digit ↦ value * radix + digit) 0, text.drop digits.length)

def readGivenChar (byte : UInt8) : Bytes → Option Bytes
  | first :: rest => if first = byte then some rest else none
  | [] => none

/-- `read_separator`: every item but the first follows a separator. -/
def readSeparator (separator : UInt8) (index : ℕ) (text : Bytes) : Option Bytes :=
  if index > 0 then readGivenChar separator text else some text

/-- The octets of an address of version 4, from the one at `index` on. -/
def readOctets : (count index : ℕ) → Bytes → Option (List ℕ × Bytes)
  | 0, _, text => some ([], text)
  | count + 1, index, text => do
    let text ← readSeparator 46 index text
    let (octet, text) ← readNumber 10 3 false text
    if octet < 256 then
      let (octets, text) ← readOctets count (index + 1) text
      return (octet :: octets, text)
    else none

def readIpv4 (text : Bytes) : Option (List ℕ × Bytes) := readOctets 4 0 text

/-- `read_groups`: at most `room` groups of 16 bits, and whether they end in an address of
version 4. -/
def readGroups : (room index : ℕ) → Bytes → List ℕ × Bool × Bytes
  | 0, _, text => ([], false, text)
  | room + 1, index, text =>
    match if 0 < room then (readSeparator 58 index text).bind readIpv4 else none with
    | some ([one, two, three, four], rest) =>
      ([one * 256 + two, three * 256 + four], true, rest)
    | _ =>
      match (readSeparator 58 index text).bind (readNumber 16 4 true) with
      | some (group, rest) =>
        let (groups, embedded, rest) := readGroups room (index + 1) rest
        (group :: groups, embedded, rest)
      | none => ([], false, text)

/-- `read_ipv6_addr`: a double colon stands for at least one group of zeros. -/
def readIpv6 (text : Bytes) : Option (List ℕ × Bytes) := do
  let (head, embedded, text) := readGroups 8 0 text
  if head.length = 8 then
    return (head, text)
  if embedded then none
  else
    let text ← readGivenChar 58 text
    let text ← readGivenChar 58 text
    let (tail, _, text) := readGroups (8 - (head.length + 1)) 0 text
    return (head ++ List.replicate (8 - head.length - tail.length) 0 ++ tail, text)

end AddressParser

/-- `str::parse::<IpAddr>`. -/
def IpAddr.parse (text : Bytes) : Option IpAddr :=
  match AddressParser.readIpv4 text with
  | some (octets, rest) =>
    if rest = [] then some (.v4 (BitVec.ofNat 32 (octets.foldl (fun bits octet ↦ bits * 256 + octet) 0)))
    else none
  | none =>
    match AddressParser.readIpv6 text with
    | some (groups, []) =>
      some (.v6 (BitVec.ofNat 128 (groups.foldl (fun bits group ↦ bits * 65536 + group) 0)))
    | _ => none

/-- `127.0.0.0/8` or `::1`. -/
def IpAddr.isLoopback : IpAddr → Bool
  | .v4 bits => bits.toNat / 2 ^ 24 = 127
  | .v6 bits => bits = 1

example : IpAddr.parse (ascii "127.0.0.1") = some (.v4 0x7f000001) := by decide
example : IpAddr.parse (ascii "::1") = some (.v6 1) := by decide
example : IpAddr.parse (ascii "127.0.01.1") = none := by decide

/-! ## Requests -/

/-- A header value; only visible text can be read as text. -/
abbrev HeaderValue : Type := Bytes

/-- `HeaderValue::to_str`. -/
def HeaderValue.toStr (value : HeaderValue) : Option Bytes :=
  if value.all fun byte ↦ (32 ≤ byte && byte < 127) || byte = 9 then some value else none

/-- The header fields in the order they came, under lower-case names. -/
structure HeaderMap where
  fields : List (String × HeaderValue)

namespace HeaderMap

def getAll (headers : HeaderMap) (name : String) : List HeaderValue :=
  (headers.fields.filter fun field ↦ field.1 = name).map Prod.snd

/-- The first value. -/
def get? (headers : HeaderMap) (name : String) : Option HeaderValue := (headers.getAll name).head?

def keys (headers : HeaderMap) : List String := headers.fields.map Prod.fst

end HeaderMap

structure Request where
  method : String
  path : String
  query : Option String
  headers : HeaderMap
  peer : Option IpAddr

/-- The scheme, the host and the port of a URL. -/
structure TupleOrigin where
  scheme : Bytes
  host : Bytes
  port : ℕ
deriving DecidableEq

/-- A parsed URL.  An origin that is no tuple is equal to no other one. -/
structure Url where
  scheme : Bytes
  username : Bytes
  password : Option Bytes
  hostStr : Option Bytes
  path : Bytes
  query : Option Bytes
  fragment : Option Bytes
  origin : Option TupleOrigin
deriving DecidableEq

/-- What the server uses of other packages. -/
structure Packages where
  /-- `Url::parse`; a relative reference is no URL. -/
  parseUrl : Bytes → Option Url
  parseUrl_nil : parseUrl [] = none
  sha256 : Bytes → Digest
  /-- `Hmac::<Sha256>`, of a key and a message. -/
  hmac : Bytes → Bytes → Digest
  /-- `STANDARD.decode`. -/
  decodeBase64 : Bytes → Option Bytes
  /-- The text is an `f32` in `(0, 1]`. -/
  positiveQuality : Bytes → Bool
  /-- `append_pair`, which encodes a value for a query. -/
  encodeQuery : String → String

/-- `a.origin() == b.origin()`. -/
def Url.sameOrigin (a b : Url) : Bool := a.origin.isSome && a.origin = b.origin

/-! ## The policy -/

structure AccessPolicy where
  token : Option Bytes
  passwordHash : Option Digest
  publicOrigin : Option Url

variable (packages : Packages)

/-- `parse_origin`. -/
def parseOrigin (value : Bytes) : Option Url :=
  (packages.parseUrl value).filter fun origin ↦
    (origin.scheme = ascii "http" || origin.scheme = ascii "https") && origin.hostStr.isSome &&
      origin.username = [] && origin.password.isNone && origin.path = ascii "/" &&
      origin.query.isNone && origin.fragment.isNone

namespace AccessPolicy

def localOnly : AccessPolicy := ⟨none, none, none⟩

/-- `is_ascii_graphic`. -/
def isGraphic (byte : UInt8) : Bool := 33 ≤ byte && byte ≤ 126

def authenticated (token : Bytes) (publicOrigin : Option Bytes) : Option AccessPolicy :=
  if ¬ (32 ≤ token.length ∧ token.length ≤ 256) ∨ token.all isGraphic = false then none
  else
    match publicOrigin with
    | none => some ⟨some token, some (packages.sha256 token), none⟩
    | some value => (parseOrigin packages value).map fun origin ↦
        ⟨some token, some (packages.sha256 token), some origin⟩

/-- `from_env`, of the two variables. -/
def fromEnv (apiToken publicOrigin : Option Bytes) : Option AccessPolicy :=
  match apiToken with
  | some token => authenticated packages token publicOrigin
  | none => if publicOrigin.isSome then none else some localOnly

variable (policy : AccessPolicy)

def passwordMatches (candidate : Bytes) : Bool :=
  policy.passwordHash.any fun expected ↦ packages.sha256 candidate = expected

def keyedDigest (domain message : Bytes) : Option Digest :=
  policy.token.map fun token ↦ packages.hmac token (domain ++ message)

def sessionKeyDigest : Option Digest :=
  policy.keyedDigest packages (ascii "rvx:session-key:v1" ++ [0]) []

def sessionDigest (nonce : Bytes) : Option Digest :=
  policy.keyedDigest packages (ascii "rvx:session-cookie:v1" ++ [0]) nonce

/-- A hexadecimal digit in lower case. -/
def isNonceByte (byte : UInt8) : Bool := (48 ≤ byte && byte ≤ 57) || (97 ≤ byte && byte ≤ 102)

/-- One cookie of a header; a second or malformed session cookie ends the search. -/
def addCookie (nonce : Option Bytes) (cookie : Bytes) : Option (Option Bytes) :=
  match splitOnce 61 (trimBytes cookie) with
  | none => some nonce
  | some (name, value) =>
    if name = ascii "rvx_session" then
      if nonce.isSome ∨ value.length ≠ 64 ∨ value.all isNonceByte = false then none
      else some (some value)
    else some nonce

def addCookies (nonce : Option Bytes) (header : HeaderValue) : Option (Option Bytes) := do
  let text ← header.toStr
  (text.splitOn 59).foldlM addCookie nonce

/-- The nonce of the session cookie. -/
def cookieNonce (headers : HeaderMap) : Option Bytes := do
  let nonce ← (headers.getAll "cookie").foldlM addCookies none
  nonce

def cookieDigest (headers : HeaderMap) : Option Digest := do
  let nonce ← cookieNonce headers
  policy.sessionDigest packages nonce

/-- Basic credentials; a browser, which sends fetch metadata, cannot use them. -/
def basicAuthorized (headers : HeaderMap) (credential : Bytes) : Bool :=
  if headers.keys.any fun name ↦ (ascii "sec-fetch-").isPrefixOf (ascii name) then false
  else
    match packages.decodeBase64 (trimBytes credential) with
    | none => false
    | some decoded =>
      match splitOnce 58 decoded with
      | none => false
      | some (user, password) => user = ascii "rvx" && policy.passwordMatches packages password

def authorized (headers : HeaderMap) : Bool :=
  if policy.token.isNone then true
  else
    match (headers.get? "authorization").bind HeaderValue.toStr with
    | none => false
    | some value =>
      if value.length > 2048 then false
      else
        match splitOnce 32 value with
        | none => false
        | some (scheme, credential) =>
          if eqIgnoreAsciiCase scheme (ascii "Bearer") then
            policy.passwordMatches packages (trimBytes credential)
          else if eqIgnoreAsciiCase scheme (ascii "Basic") then
            policy.basicAuthorized packages headers credential
          else false

/-- The origin requests are compared with. -/
def expectedOrigin (base : Url) : Url := policy.publicOrigin.getD base

/-- A header that names an origin, if the request carries it. -/
def namesOrigin (headers : HeaderMap) (base : Url) (name : String) : Bool :=
  match headers.get? name with
  | none => true
  | some value =>
    match packages.parseUrl (value.toStr.getD []) with
    | none => false
    | some origin => origin.sameOrigin (policy.expectedOrigin base)

def sameOrigin (headers : HeaderMap) (base : Url) : Bool :=
  ((headers.get? "sec-fetch-site").all fun site ↦ site = ascii "same-origin" || site = ascii "none") &&
    policy.namesOrigin packages headers base "origin" &&
    policy.namesOrigin packages headers base "referer"

def requiredOrigin (headers : HeaderMap) (base : Url) : Bool :=
  (headers.getAll "origin").length = 1 &&
    (((headers.get? "origin").bind HeaderValue.toStr).any fun value ↦
      (parseOrigin packages value).isSome) &&
    policy.sameOrigin packages headers base

end AccessPolicy

/-! ## The decision -/

/-- `request_origin`: the Host is an authority and nothing else. -/
def requestOrigin (headers : HeaderMap) : Option Url := do
  let host ← headers.get? "host"
  let text ← host.toStr
  let url ← packages.parseUrl (ascii "http://" ++ text)
  if url.hostStr.isSome ∧ url.username = [] ∧ url.password = none ∧ url.path = ascii "/" ∧
      url.query = none ∧ url.fragment = none then some url
  else none

/-- `str::trim_matches(['[', ']'])`. -/
def trimBrackets (text : Bytes) : Bytes :=
  ((text.dropWhile fun byte ↦ byte = 91 || byte = 93).reverse.dropWhile fun byte ↦
    byte = 91 || byte = 93).reverse

def loopbackHost (url : Url) : Bool :=
  url.hostStr.any fun host ↦ eqIgnoreAsciiCase host (ascii "localhost") ||
    (IpAddr.parse (trimBrackets host)).any IpAddr.isLoopback

def publicRequest (request : Request) : Bool :=
  (request.method = "GET" && request.path = "/api/auth/session") ||
    (request.method = "POST" &&
      (request.path = "/api/auth/login" || request.path = "/api/auth/logout")) ||
    ((request.method = "GET" || request.method = "HEAD") &&
      (request.path = "/login" || request.path = "/login/" ||
        ("/login/assets/".toList).isPrefixOf request.path.toList))

/-- A media range that accepts HTML: its parameters do not rule it out. -/
def acceptsHtml (part : Bytes) : Bool :=
  match (part.splitOn 59).map trimBytes with
  | mime :: parameters => eqIgnoreAsciiCase mime (ascii "text/html") &&
      parameters.all fun parameter ↦
        match splitOnce 61 parameter with
        | some (name, value) => !eqIgnoreAsciiCase (trimBytes name) (ascii "q") ||
            packages.positiveQuality (trimBytes value)
        | none => true
  | [] => false

/-- A navigation to the workspace is sent to the login page. -/
def loginRedirect (request : Request) : Option String :=
  let navigation :=
    ((request.headers.get? "sec-fetch-dest").any fun value ↦ value = ascii "document") ||
      ((request.headers.get? "accept").bind HeaderValue.toStr).any fun value ↦
        (value.splitOn 44).any (acceptsHtml packages)
  if (request.method = "GET" ∨ request.method = "HEAD") ∧ navigation = true ∧
      (request.path = "/" ∨ request.path = "/rvx" ∨
        ("/rvx/".toList).isPrefixOf request.path.toList = true) then
    some ("/login?next=" ++ packages.encodeQuery
      (request.path ++ request.query.elim "" fun query ↦ "?" ++ query))
  else none

/-- What becomes of a request. -/
inductive Reply where
  | error (status : ℕ) (message : String) (challenge : Bool)
  | throttled (retry : ℕ)
  | unavailable
  | redirect (location : String)
  /-- A handler runs, perhaps under a cookie session. -/
  | handler (session : Option Digest)
deriving DecidableEq

/-- The state behind the policy; reading the sessions may fail. -/
structure AuthState where
  policy : AccessPolicy
  store : AuthStore
  storeFails : Bool
  throttle : LoginThrottle

/-- `cookie_session`: the digest of an active session. -/
def AuthState.cookieSession (state : AuthState) (headers : HeaderMap) (nowNs : ℤ) :
    Except AuthError (Option Digest) :=
  match state.policy.cookieDigest packages headers, state.policy.sessionKeyDigest packages with
  | some digest, some key =>
    if state.storeFails then .error .sqlite
    else .ok (if state.store.authSessionActive key digest nowNs then some digest else none)
  | _, _ => .ok none

def isAuthWrite (request : Request) : Bool :=
  request.method = "POST" &&
    (request.path = "/api/auth/login" || request.path = "/api/auth/logout")

/-- The checks after the credentials. -/
def checkOrigins (policy : AccessPolicy) (request : Request) (base : Url) (session : Option Digest) : Reply :=
  if request.path = "/api/ui/connection" ∧ request.query.isSome = true then
    .error 400 "WebSocket connection URL must not contain query parameters" false
  else if request.path = "/api/ui/connection" ∧
      policy.requiredOrigin packages request.headers base = false then
    .error 403 "WebSocket requires the same-origin Origin header" false
  else if ¬ (request.method = "GET" ∨ request.method = "HEAD" ∨ request.method = "OPTIONS") ∧
      policy.sameOrigin packages request.headers base = false then
    .error 403 "requests must use the same origin" false
  else .handler session

/-- The credentials, and what follows them. -/
def authenticate (state : AuthState) (request : Request) (base : Url) (nowNs : ℤ) : Reply :=
  if publicRequest request = false ∧ state.policy.authorized packages request.headers = false then
    match state.cookieSession packages request.headers nowNs with
    | .ok (some session) => checkOrigins packages state.policy request base (some session)
    | .ok none =>
      match loginRedirect packages request with
      | some location => .redirect location
      | none => .error 401 "RVX authentication required" true
    | .error _ => .unavailable
  else checkOrigins packages state.policy request base none

/-- The answer to a request and the throttle after it; `now` and `nowNs` are the two clocks. -/
def protect (state : AuthState) (request : Request) (now : ℕ) (nowNs : ℤ) :
    Option (Reply × LoginThrottle) :=
  match requestOrigin packages request.headers with
  | none => some (.error 403 "invalid request host" false, state.throttle)
  | some base =>
    if state.policy.token.isNone ∧ loopbackHost base = false then
      some (.error 403 "unauthenticated access is limited to loopback hosts" false, state.throttle)
    else if isAuthWrite request ∧ state.policy.requiredOrigin packages request.headers base = false then
      some (.error 403 "Authentication requests require the same-origin Origin header" false,
        state.throttle)
    else if isAuthWrite request ∧ request.query.isSome then
      some (.error 400 "Authentication requests must not use query parameters" false, state.throttle)
    else if request.method = "POST" ∧ request.path = "/api/auth/login" then do
      let (retry, throttle) ← state.throttle.attempt request.peer now
      match retry with
      | some retry => return (.throttled retry, throttle)
      | none => return (authenticate packages state request base nowNs, throttle)
    else some (authenticate packages state request base nowNs, state.throttle)

end Rvx.Server
