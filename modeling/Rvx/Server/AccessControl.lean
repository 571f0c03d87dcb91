import Rvx.Server.Access

/-!
# What reaches a handler

A request that `protect` passes on names a valid host, has credentials unless its route is public,
and where it could have effects it comes from the expected origin.
-/

namespace Rvx.Server

open Registry

/-! ## What a request carries -/

variable (packages : Packages)

/-- The Host is an authority, without credentials, path, query or fragment. -/
structure ValidHost (headers : HeaderMap) (base : Url) : Prop where
  parsed : ∃ host text, headers.get? "host" = some host ∧ host.toStr = some text ∧
    packages.parseUrl (ascii "http://" ++ text) = some base
  host : base.hostStr.isSome = true
  username : base.username = []
  password : base.password = none
  path : base.path = ascii "/"
  query : base.query = none
  fragment : base.fragment = none

/-- A loopback name or address. -/
def LoopbackName (base : Url) : Prop :=
  ∃ host, base.hostStr = some host ∧ (eqIgnoreAsciiCase host (ascii "localhost") = true ∨
    ∃ ip, IpAddr.parse (trimBrackets host) = some ip ∧ ip.isLoopback = true)

/-- The Authorization header, split at its first blank. -/
def Credentials (headers : HeaderMap) (scheme : String) (credential : Bytes) : Prop :=
  ∃ value text name, headers.get? "authorization" = some value ∧ value.toStr = some text ∧
    splitOnce 32 text = some (name, credential) ∧ eqIgnoreAsciiCase name (ascii scheme) = true

def CarriesBearer (headers : HeaderMap) (token : Bytes) : Prop :=
  ∃ credential, Credentials headers "Bearer" credential ∧ trimBytes credential = token

/-- The credentials of the user `rvx`, from a client that sends no fetch metadata. -/
def CarriesBasic (headers : HeaderMap) (token : Bytes) : Prop :=
  (∃ credential, Credentials headers "Basic" credential ∧
    packages.decodeBase64 (trimBytes credential) = some (ascii "rvx" ++ 58 :: token)) ∧
  ∀ name ∈ headers.keys, (ascii "sec-fetch-").isPrefixOf (ascii name) = false

/-- The value of a session cookie. -/
def sessionValue (cookie : Bytes) : Option Bytes :=
  (splitOnce 61 (trimBytes cookie)).bind fun pair ↦
    if pair.1 = ascii "rvx_session" then some pair.2 else none

def sessionCookies (headers : HeaderMap) : List Bytes :=
  (headers.getAll "cookie").flatMap fun header ↦ (header.splitOn 59).filterMap sessionValue

/-- 64 hexadecimal digits in lower case. -/
def WellFormedNonce (nonce : Bytes) : Prop :=
  nonce.length = 64 ∧ nonce.all AccessPolicy.isNonceByte = true

/-- One session cookie, whose session is active. -/
def CarriesSession (state : AuthState) (headers : HeaderMap) (nowNs : ℤ) : Prop :=
  ∃ nonce key digest, sessionCookies headers = [nonce] ∧ WellFormedNonce nonce ∧
    state.policy.sessionKeyDigest packages = some key ∧
    state.policy.sessionDigest packages nonce = some digest ∧
    state.store.authSessionActive key digest nowNs = true

/-- A header value is a URL of the expected origin. -/
def HasOrigin (value : HeaderValue) (expected : Url) : Prop :=
  ∃ text url, value.toStr = some text ∧ packages.parseUrl text = some url ∧
    url.sameOrigin expected = true

def AtMostOnce (headers : HeaderMap) (name : String) : Prop := (headers.getAll name).length ≤ 1

/-- A policy comes from one of its constructors. -/
def Configured (policy : AccessPolicy) : Prop :=
  policy = .localOnly ∨
    ∃ token publicOrigin, AccessPolicy.authenticated packages token publicOrigin = some policy

/-- Only the token itself has its digest. -/
def SecondPreimageFree (token : Bytes) : Prop :=
  ∀ candidate, packages.sha256 candidate = packages.sha256 token → candidate = token

variable {packages}

/-! ## Texts -/

theorem toStr_eq_some {value : HeaderValue} {text : Bytes} (h : value.toStr = some text) :
    text = value := by
  unfold HeaderValue.toStr at h
  split at h
  · exact (Option.some.inj h).symm
  · cases h

theorem splitOnce_eq_some {separator : UInt8} {text before after : Bytes}
    (h : splitOnce separator text = some (before, after)) : text = before ++ separator :: after := by
  unfold splitOnce at h
  split at h
  · rename_i hmem
    obtain ⟨rfl, rfl⟩ := Prod.mk.inj (Option.some.inj h)
    induction text with
    | nil => cases hmem
    | cons first rest ih =>
      by_cases hfirst : first = separator
      · simp [hfirst]
      · have hrest := ih ((List.mem_cons.mp hmem).resolve_left (Ne.symm hfirst)) rfl
        simpa [hfirst] using hrest
  · cases h

theorem HeaderMap.get?_eq_some {headers : HeaderMap} {name : String} {value : HeaderValue}
    (hsome : value ∈ headers.getAll name) (honce : AtMostOnce headers name) :
    headers.get? name = some value := by
  unfold AtMostOnce at honce
  unfold HeaderMap.get?
  cases hall : headers.getAll name with
  | nil =>
    rw [hall] at hsome
    cases hsome
  | cons first rest =>
    rw [hall, List.length_cons] at honce
    have hrest : rest = [] := List.eq_nil_of_length_eq_zero (by omega)
    rw [hall, hrest, List.mem_singleton] at hsome
    rw [hsome]
    rfl

/-! ## Credentials -/

theorem Configured.passwordHash {policy : AccessPolicy} (h : Configured packages policy) :
    policy.passwordHash = policy.token.map packages.sha256 := by
  obtain rfl | ⟨token, publicOrigin, h⟩ := h
  · rfl
  · unfold AccessPolicy.authenticated at h
    split at h
    · cases h
    split at h
    · obtain rfl := Option.some.inj h
      rfl
    · obtain ⟨origin, -, rfl⟩ := Option.map_eq_some_iff.mp h
      rfl

theorem passwordMatches_eq {policy : AccessPolicy} {token candidate : Bytes}
    (hpolicy : Configured packages policy) (htoken : policy.token = some token)
    (hsha : SecondPreimageFree packages token)
    (h : policy.passwordMatches packages candidate = true) : candidate = token := by
  unfold AccessPolicy.passwordMatches at h
  rw [hpolicy.passwordHash, htoken, Option.map_some, Option.any_some, decide_eq_true_eq] at h
  exact hsha candidate h

theorem authorized_spec {policy : AccessPolicy} {token : Bytes} {headers : HeaderMap}
    (hpolicy : Configured packages policy) (htoken : policy.token = some token)
    (hsha : SecondPreimageFree packages token) (h : policy.authorized packages headers = true) :
    CarriesBearer headers token ∨ CarriesBasic packages headers token := by
  unfold AccessPolicy.authorized at h
  rw [htoken, if_neg (by simp)] at h
  split at h
  · cases h
  rename_i text hvalue
  obtain ⟨value, hget, htext⟩ := Option.bind_eq_some_iff.mp hvalue
  split at h
  · cases h
  split at h
  · cases h
  rename_i scheme credential hsplit
  split at h
  · rename_i hbearer
    exact Or.inl ⟨credential, ⟨value, text, scheme, hget, htext, hsplit, hbearer⟩,
      passwordMatches_eq hpolicy htoken hsha h⟩
  split at h
  · rename_i hbasic
    unfold AccessPolicy.basicAuthorized at h
    split at h
    · cases h
    rename_i hfetch
    split at h
    · cases h
    rename_i decoded hdecoded
    split at h
    · cases h
    rename_i user password hcolon
    rw [Bool.and_eq_true, decide_eq_true_eq] at h
    obtain ⟨rfl, hpassword⟩ := h
    have hsame := passwordMatches_eq hpolicy htoken hsha hpassword
    refine Or.inr ⟨⟨credential, ⟨value, text, scheme, hget, htext, hsplit, hbasic⟩, ?_⟩, ?_⟩
    · rw [hdecoded, splitOnce_eq_some hcolon, hsame]
    · intro name hname
      rw [List.any_eq_true, not_exists] at hfetch
      exact Bool.eq_false_iff.mpr fun hprefix ↦ hfetch name ⟨hname, hprefix⟩
  · cases h

/-! ## Cookies -/

theorem addCookie_spec {nonce nonce' : Option Bytes} {cookie : Bytes}
    (h : AccessPolicy.addCookie nonce cookie = some nonce') :
    nonce'.toList = nonce.toList ++ (sessionValue cookie).toList ∧
      ∀ value ∈ sessionValue cookie, WellFormedNonce value := by
  unfold AccessPolicy.addCookie at h
  unfold sessionValue
  cases hsplit : splitOnce 61 (trimBytes cookie) with
  | none =>
    rw [hsplit] at h
    simp [Option.some.inj h]
  | some pair =>
    rw [hsplit] at h
    rw [Option.bind_some]
    dsimp only at h
    split at h
    · rename_i hname
      split at h
      · cases h
      · rename_i hgood
        rw [not_or, not_or, not_not, Bool.not_eq_false] at hgood
        obtain ⟨hfirst, hlength, hbytes⟩ := hgood
        rw [if_pos hname, ← Option.some.inj h, Option.not_isSome_iff_eq_none.mp hfirst]
        refine ⟨rfl, ?_⟩
        rintro value ⟨⟩
        exact ⟨hlength, hbytes⟩
    · rename_i hname
      rw [if_neg hname, ← Option.some.inj h]
      simp

theorem foldlM_addCookie_spec {cookies : List Bytes} {nonce nonce' : Option Bytes}
    (h : cookies.foldlM AccessPolicy.addCookie nonce = some nonce') :
    nonce'.toList = nonce.toList ++ cookies.filterMap sessionValue ∧
      ∀ value ∈ cookies.filterMap sessionValue, WellFormedNonce value := by
  induction cookies generalizing nonce with
  | nil =>
    rw [List.foldlM_nil] at h
    simp [Option.some.inj h]
  | cons cookie rest ih =>
    rw [List.foldlM_cons, Option.bind_eq_bind, Option.bind_eq_some_iff] at h
    obtain ⟨middle, hcookie, hrest⟩ := h
    obtain ⟨hlist, hgood⟩ := addCookie_spec hcookie
    obtain ⟨hlists, hgoods⟩ := ih hrest
    rw [hlists, hlist, List.filterMap_cons]
    cases hvalue : sessionValue cookie with
    | none => exact ⟨by simp, hgoods⟩
    | some value =>
      refine ⟨by simp, List.forall_mem_cons.mpr ⟨?_, hgoods⟩⟩
      exact hgood value hvalue

theorem foldlM_addCookies_spec {headers : List HeaderValue} {nonce nonce' : Option Bytes}
    (h : headers.foldlM AccessPolicy.addCookies nonce = some nonce') :
    nonce'.toList = nonce.toList ++
        headers.flatMap (fun header ↦ (header.splitOn 59).filterMap sessionValue) ∧
      ∀ value ∈ headers.flatMap fun header ↦ (header.splitOn 59).filterMap sessionValue,
        WellFormedNonce value := by
  induction headers generalizing nonce with
  | nil =>
    rw [List.foldlM_nil] at h
    simp [Option.some.inj h]
  | cons header rest ih =>
    rw [List.foldlM_cons, Option.bind_eq_bind, Option.bind_eq_some_iff] at h
    obtain ⟨middle, hheader, hrest⟩ := h
    unfold AccessPolicy.addCookies at hheader
    rw [Option.bind_eq_bind, Option.bind_eq_some_iff] at hheader
    obtain ⟨text, htext, hheader⟩ := hheader
    rw [toStr_eq_some htext] at hheader
    obtain ⟨hlist, hgood⟩ := foldlM_addCookie_spec hheader
    obtain ⟨hlists, hgoods⟩ := ih hrest
    rw [hlists, hlist, List.flatMap_cons, List.append_assoc]
    refine ⟨rfl, fun value hvalue ↦ ?_⟩
    obtain hvalue | hvalue := List.mem_append.mp hvalue
    · exact hgood value hvalue
    · exact hgoods value hvalue

theorem cookieNonce_spec {headers : HeaderMap} {nonce : Bytes}
    (h : AccessPolicy.cookieNonce headers = some nonce) :
    sessionCookies headers = [nonce] ∧ WellFormedNonce nonce := by
  unfold AccessPolicy.cookieNonce at h
  rw [Option.bind_eq_bind, Option.bind_eq_some_iff] at h
  obtain ⟨found, hfold, rfl⟩ := h
  obtain ⟨hlist, hgood⟩ := foldlM_addCookies_spec hfold
  have hcookies : sessionCookies headers = [nonce] := hlist.symm
  refine ⟨hcookies, hgood nonce ?_⟩
  change nonce ∈ sessionCookies headers
  rw [hcookies]
  exact List.mem_singleton_self nonce

theorem cookieSession_spec {state : AuthState} {headers : HeaderMap} {nowNs : ℤ} {session : Digest}
    (h : state.cookieSession packages headers nowNs = .ok (some session)) :
    CarriesSession packages state headers nowNs := by
  unfold AuthState.cookieSession at h
  split at h
  · rename_i digest key hdigest hkey
    unfold AccessPolicy.cookieDigest at hdigest
    rw [Option.bind_eq_bind, Option.bind_eq_some_iff] at hdigest
    obtain ⟨nonce, hnonce, hdigest⟩ := hdigest
    obtain ⟨hcookies, hgood⟩ := cookieNonce_spec hnonce
    split at h
    · cases h
    split at h
    · rename_i hactive
      exact ⟨nonce, key, digest, hcookies, hgood, hkey, hdigest, hactive⟩
    · cases h
  · cases h

/-! ## Origins -/

theorem namesOrigin_spec {policy : AccessPolicy} {headers : HeaderMap} {base : Url} {name : String}
    {value : HeaderValue} (h : policy.namesOrigin packages headers base name = true)
    (hget : headers.get? name = some value) :
    HasOrigin packages value (policy.expectedOrigin base) := by
  unfold AccessPolicy.namesOrigin at h
  rw [hget] at h
  dsimp only at h
  cases htext : value.toStr with
  | none =>
    rw [htext, Option.getD_none, packages.parseUrl_nil] at h
    cases h
  | some text =>
    rw [htext, Option.getD_some] at h
    cases hparse : packages.parseUrl text with
    | none =>
      rw [hparse] at h
      cases h
    | some url =>
      rw [hparse] at h
      exact ⟨text, url, htext, hparse, h⟩

/-- What `same_origin` establishes of headers that are carried at most once. -/
theorem sameOrigin_spec {policy : AccessPolicy} {headers : HeaderMap} {base : Url}
    (h : policy.sameOrigin packages headers base = true) :
    (∀ value, headers.get? "sec-fetch-site" = some value →
      value = ascii "same-origin" ∨ value = ascii "none") ∧
    ∀ name ∈ ["origin", "referer"], ∀ value, headers.get? name = some value →
      HasOrigin packages value (policy.expectedOrigin base) := by
  unfold AccessPolicy.sameOrigin at h
  rw [Bool.and_eq_true, Bool.and_eq_true] at h
  obtain ⟨⟨hsite, horigin⟩, hreferer⟩ := h
  refine ⟨fun value hvalue ↦ ?_, fun name hname value hvalue ↦ ?_⟩
  · rw [hvalue, Option.all_some] at hsite
    simpa using hsite
  · obtain rfl | hname := List.mem_cons.mp hname
    · exact namesOrigin_spec horigin hvalue
    · rw [List.mem_singleton.mp hname] at hvalue
      exact namesOrigin_spec hreferer hvalue

theorem requiredOrigin_spec {policy : AccessPolicy} {headers : HeaderMap} {base : Url}
    (h : policy.requiredOrigin packages headers base = true) :
    ∃ value, headers.getAll "origin" = [value] ∧
      HasOrigin packages value (policy.expectedOrigin base) := by
  unfold AccessPolicy.requiredOrigin at h
  rw [Bool.and_eq_true, Bool.and_eq_true, decide_eq_true_eq] at h
  obtain ⟨⟨hcount, -⟩, hsame⟩ := h
  obtain ⟨value, hvalue⟩ := List.length_eq_one_iff.mp hcount
  refine ⟨value, hvalue, (sameOrigin_spec hsame).2 "origin" (by simp) value ?_⟩
  rw [HeaderMap.get?, hvalue]
  rfl

theorem requestOrigin_spec {headers : HeaderMap} {base : Url}
    (h : requestOrigin packages headers = some base) : ValidHost packages headers base := by
  unfold requestOrigin at h
  simp only [Option.bind_eq_bind, Option.bind_eq_some_iff] at h
  obtain ⟨host, hhost, text, htext, url, hparse, h⟩ := h
  split at h
  · rename_i hparts
    obtain rfl := Option.some.inj h
    obtain ⟨hhostStr, husername, hpassword, hpath, hquery, hfragment⟩ := hparts
    exact ⟨⟨host, text, hhost, htext, hparse⟩, hhostStr, husername, hpassword, hpath, hquery,
      hfragment⟩
  · cases h

theorem loopbackHost_spec {base : Url} (h : loopbackHost base = true) : LoopbackName base := by
  unfold loopbackHost at h
  rw [Option.any_eq_true] at h
  obtain ⟨host, hhost, h⟩ := h
  rw [Bool.or_eq_true, Option.any_eq_true] at h
  exact ⟨host, hhost, h⟩

/-! ## The decision -/

section Decisions

variable {state : AuthState} {policy : AccessPolicy} {request : Request} {base : Url}
  {session session' : Option Digest} {now : ℕ} {nowNs : ℤ} {throttle : LoginThrottle}

theorem checkOrigins_spec (h : checkOrigins packages policy request base session = .handler session') :
    (request.path = "/api/ui/connection" →
      policy.requiredOrigin packages request.headers base = true) ∧
    (¬ (request.method = "GET" ∨ request.method = "HEAD" ∨ request.method = "OPTIONS") →
      policy.sameOrigin packages request.headers base = true) := by
  unfold checkOrigins at h
  split at h
  · cases h
  split at h
  · cases h
  rename_i hsocket
  split at h
  · cases h
  rename_i hmethod
  constructor
  · intro hpath
    exact Bool.not_eq_false _ ▸ fun hfalse ↦ hsocket ⟨hpath, hfalse⟩
  · intro hwrites
    exact Bool.not_eq_false _ ▸ fun hfalse ↦ hmethod ⟨hwrites, hfalse⟩

theorem authenticate_spec (h : authenticate packages state request base nowNs = .handler session) :
    (publicRequest request = true ∨ state.policy.authorized packages request.headers = true ∨
      CarriesSession packages state request.headers nowNs) ∧
    ∃ found, checkOrigins packages state.policy request base found = .handler session := by
  unfold authenticate at h
  split at h
  · split at h
    · rename_i digest hsession
      exact ⟨Or.inr (Or.inr (cookieSession_spec hsession)), _, h⟩
    · split at h <;> cases h
    · cases h
  · rename_i hopen
    refine ⟨?_, none, h⟩
    rw [not_and_or, Bool.not_eq_false, Bool.not_eq_false] at hopen
    exact hopen.imp_right Or.inl

theorem protect_spec (h : protect packages state request now nowNs =
    some (.handler session, throttle)) :
    ∃ base, requestOrigin packages request.headers = some base ∧
      (state.policy.token = none → loopbackHost base = true) ∧
      (isAuthWrite request = true →
        state.policy.requiredOrigin packages request.headers base = true) ∧
      authenticate packages state request base nowNs = .handler session := by
  unfold protect at h
  split at h
  · cases h
  rename_i base hbase
  refine ⟨base, hbase, ?_⟩
  split at h
  · cases h
  rename_i hloopback
  split at h
  · cases h
  rename_i horigin
  split at h
  · cases h
  refine ⟨fun htoken ↦ ?_, fun hwrite ↦ ?_, ?_⟩
  · exact Bool.not_eq_false _ ▸ fun hfalse ↦ hloopback ⟨by rw [htoken]; rfl, hfalse⟩
  · exact Bool.not_eq_false _ ▸ fun hfalse ↦ horigin ⟨hwrite, hfalse⟩
  split at h
  · rw [Option.bind_eq_bind, Option.bind_eq_some_iff] at h
    obtain ⟨⟨retry, after⟩, -, h⟩ := h
    cases retry with
    | some retry => cases h
    | none => exact (Prod.mk.inj (Option.some.inj h)).1
  · exact (Prod.mk.inj (Option.some.inj h)).1

end Decisions

/-- A request that reaches a handler names a valid host, which is a loopback one if no token is
configured; with a token its route is public, or it carries credentials; where it could have effects
its headers name the expected origin, and at the login, the logout and the socket it carries exactly
one Origin. -/
theorem protect_secure (packages : Packages) (state : AuthState) (request : Request) (now : ℕ)
    (nowNs : ℤ) (session : Option Digest) (throttle : LoginThrottle)
    (hpolicy : Configured packages state.policy)
    (hsha : ∀ token ∈ state.policy.token, SecondPreimageFree packages token)
    (h : protect packages state request now nowNs = some (.handler session, throttle)) :
    ∃ base, ValidHost packages request.headers base ∧
      (state.policy.token = none → LoopbackName base) ∧
      (∀ token ∈ state.policy.token, publicRequest request = true ∨
        CarriesBearer request.headers token ∨ CarriesBasic packages request.headers token ∨
        CarriesSession packages state request.headers nowNs) ∧
      (¬ (request.method = "GET" ∨ request.method = "HEAD" ∨ request.method = "OPTIONS") →
        AtMostOnce request.headers "origin" → AtMostOnce request.headers "referer" →
        AtMostOnce request.headers "sec-fetch-site" →
          (∀ name ∈ ["origin", "referer"], ∀ value ∈ request.headers.getAll name,
            HasOrigin packages value (state.policy.expectedOrigin base)) ∧
          ∀ value ∈ request.headers.getAll "sec-fetch-site",
            value = ascii "same-origin" ∨ value = ascii "none") ∧
      ((request.method = "POST" ∧
          (request.path = "/api/auth/login" ∨ request.path = "/api/auth/logout")) ∨
        request.path = "/api/ui/connection" →
          ∃ value, request.headers.getAll "origin" = [value] ∧
            HasOrigin packages value (state.policy.expectedOrigin base)) := by
  obtain ⟨base, hbase, hloopback, hwrite, hauthenticate⟩ := protect_spec h
  obtain ⟨hcredentials, found, hcheck⟩ := authenticate_spec hauthenticate
  obtain ⟨hsocket, hsame⟩ := checkOrigins_spec hcheck
  refine ⟨base, requestOrigin_spec hbase, fun htoken ↦ loopbackHost_spec (hloopback htoken),
    fun token htoken ↦ ?_, fun hmethod horigin hreferer hsite ↦ ?_, ?_⟩
  · obtain hpublic | hauthorized | hcookie := hcredentials
    · exact Or.inl hpublic
    · obtain hbearer | hbasic := authorized_spec hpolicy htoken (hsha token htoken) hauthorized
      · exact Or.inr (Or.inl hbearer)
      · exact Or.inr (Or.inr (Or.inl hbasic))
    · exact Or.inr (Or.inr (Or.inr hcookie))
  · obtain ⟨hsites, hnames⟩ := sameOrigin_spec (hsame hmethod)
    refine ⟨fun name hname value hvalue ↦ ?_, fun value hvalue ↦ ?_⟩
    · refine hnames name hname value (HeaderMap.get?_eq_some hvalue ?_)
      obtain rfl | hname := List.mem_cons.mp hname
      · exact horigin
      · exact List.mem_singleton.mp hname ▸ hreferer
    · exact hsites value (HeaderMap.get?_eq_some hvalue hsite)
  · rintro (⟨hmethod, hpath⟩ | hpath)
    · refine requiredOrigin_spec (hwrite ?_)
      simp [isAuthWrite, hmethod, hpath]
    · exact requiredOrigin_spec (hsocket hpath)

/-! ## A request with a token -/

def sampleToken : Bytes := List.replicate 32 97

def sampleUrl : Url :=
  ⟨ascii "http", [], none, some (ascii "localhost"), ascii "/", none, none,
    some ⟨ascii "http", ascii "localhost", 80⟩⟩

/-- The packages, on the texts of the request below. -/
def samplePackages : Packages where
  parseUrl text := if text = ascii "http://localhost" then some sampleUrl else none
  parseUrl_nil := by decide
  sha256 text := if text = sampleToken then
    0x3ba3f5f43b92602683c19aee62a20342b084dd5971ddd33808d81a328879a547 else 0
  hmac _ _ := 0
  decodeBase64 _ := none
  positiveQuality _ := false
  encodeQuery text := text

def sampleState : AuthState :=
  ⟨⟨some sampleToken, some (samplePackages.sha256 sampleToken), none⟩, .initial, false, .default⟩

def sampleRequest : Request :=
  ⟨"DELETE", "/api/runs", none, ⟨[("host", ascii "localhost"), ("origin", ascii "http://localhost"),
    ("authorization", ascii "Bearer " ++ sampleToken)]⟩, none⟩

theorem sampleToken_free : SecondPreimageFree samplePackages sampleToken := by
  intro candidate h
  by_contra hne
  simp only [samplePackages, if_neg hne] at h
  revert h
  decide

theorem protect_secure_sample :
    protect samplePackages sampleState sampleRequest 0 0 = some (.handler none, .default) ∧
      CarriesBearer sampleRequest.headers sampleToken := by
  have hpass : protect samplePackages sampleState sampleRequest 0 0 =
      some (.handler none, .default) := by
    rfl
  have hpolicy : Configured samplePackages sampleState.policy :=
    Or.inr ⟨sampleToken, none, by rfl⟩
  obtain ⟨base, -, -, -, -, -⟩ := protect_secure samplePackages sampleState sampleRequest 0 0 none
    .default hpolicy (by rintro token ⟨⟩; exact sampleToken_free) hpass
  refine ⟨hpass, sampleToken, ⟨_, ascii "Bearer " ++ sampleToken, ascii "Bearer", rfl, by decide,
    by decide, by decide⟩, by decide⟩

end Rvx.Server
