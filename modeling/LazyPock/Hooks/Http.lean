import LazyPock.Net.Hosts

/-!
# Requests of hooks

`crates/hooks/src/http.rs`: what a hook may send to other hosts. The gate checks the URL, the allowlist,
the method, the headers and the body, and every address that the host resolves to, and pins the client
to the first of them, so that a second answer cannot lead the request elsewhere.

The pin is kept under the name that was checked, without trailing dots, and the client is given the URL as
it was written. Where a host is written with a root dot the two are different names, and the client
resolves the host again. The timeout is clamped to at least fifty milliseconds and at most the budget,
and `clamp` panics on a smaller budget. `Http.gate_iff` says that nothing else can go wrong.

## Main definitions

* `Http.HookHttp`, `Http.HookHttp.prepare`.
* `Http.connected`: where the client connects.
* `Http.Gated`: what the gate is for.

## Main results

* `Http.check_eq_ok`, `Http.prepare_eq_ok`.
* `Http.gate_iff`, `Http.root_dot_escapes`.
-/

namespace LazyPock.Http

open Text Net

/-! ### Calls -/

/-- One request a hook asked for; the timeout in nanoseconds. -/
structure HttpCall where
  method : String
  url : String
  headers : List (String × String)
  body : Option String
  timeout : Option ℕ

/-- What the gate uses of a parsed URL. -/
structure Url where
  scheme : String
  username : String
  password : Option String
  host : Option String
  /-- `port_or_known_default` -/
  port : Option ℕ

/-- The libraries: the parser of URLs with its messages, a URL without its secrets, and an address as
text. -/
structure Library where
  parse : String → Except String Url
  redact : String → String
  display : IpAddr → String

/-- The gate, with its allowlist and the time of a dispatch in nanoseconds. -/
structure HookHttp where
  /-- `LAZYPOCK_HOOK_HTTP_ALLOWLIST` -/
  raw : String
  allow : HostAllowlist
  parsed : HostAllowlist.parse raw = .ok allow
  budget : ℕ

/-- What was decided before anything is sent. -/
structure Prepared where
  method : String
  url : String
  /-- The name of the pin. -/
  host : String
  headers : List (String × String)
  body : Option String
  address : IpAddr
  port : ℕ
  timeout : ℕ

/-- How `prepare` ends without a request. -/
inductive Failure where
  | refused (e : Error)
  | panicked

def millisecond : ℕ := 1000000

def defaultTimeout : ℕ := 1000 * millisecond

def maxRequestBodyBytes : ℕ := 256 * 1024

def maxUrlLen : ℕ := 2048

def maxHeaders : ℕ := 32

def maxHeaderName : ℕ := 64

def maxHeaderValue : ℕ := 4096

def allowedMethods : List String := ["GET", "POST", "PUT", "PATCH", "DELETE", "HEAD"]

/-- The headers that describe the connection or the framing. -/
def forbiddenHeaders : List String :=
  ["host", "content-length", "connection", "transfer-encoding", "upgrade", "proxy-authorization",
    "proxy-connection", "te"]

/-! ### The gate -/

/-- The check of one header. -/
def checkHeader (header : String × String) : Result Unit := do
  let (name, value) := header
  failIf (toAsciiLowercase name ∈ forbiddenHeaders)
    (.invalid ("$http: the " ++ debug name ++ " header is set by the server, not by a hook"))
  failIf (name = "" ∨ maxHeaderName < byteLen name ∨ maxHeaderValue < byteLen value)
    (.invalid ("$http: the header " ++ debug name ++ " is too long (name ≤ " ++
      toString maxHeaderName ++ ", value ≤ " ++ toString maxHeaderValue ++ ")"))
  failIf ((name.toList.any fun c => isControl c || c = ' ' || c = ':') ∨ value.toList.any isControl)
    (.invalid ("$http: the header " ++ debug name ++ " has a character a header cannot hold"))

def checkHeaders (headers : List (String × String)) : Result Unit := do
  failIf (maxHeaders < headers.length)
    (.invalid ("$http: a request may set at most " ++ toString maxHeaders ++ " headers"))
  headers.forM checkHeader

def checkBody (method : String) : Option String → Result Unit
  | none => .ok ()
  | some body => do
    failIf (maxRequestBodyBytes < byteLen body)
      (.invalid ("$http: a request body is limited to " ++ toString maxRequestBodyBytes ++ " bytes"))
    failIf (method ≠ "POST" ∧ method ≠ "PUT" ∧ method ≠ "PATCH")
      (.invalid ("$http: " ++ method ++ " does not take a body"))
    failIf (Char.ofNat 0 ∈ body.toList) (.invalid "$http: a request body cannot hold a NUL")

/-- The name that is checked, resolved and pinned. -/
def checkedHost (host : String) : String := trimEndMatches '.' (toAsciiLowercase host)

/-- `Ord::clamp`, which panics where the bounds are the wrong way round. -/
def clamp (low high value : ℕ) : Option ℕ :=
  if low ≤ high then some (if value < low then low else if high < value then high else value) else none

namespace HookHttp

variable (library : Library) (hook : HookHttp)

/-- The checks before the timeout: the host as it is written in the URL, and the port. -/
def check (call : HttpCall) : Result (String × ℕ) := do
  failIf (maxUrlLen < byteLen call.url)
    (.invalid ("$http: a URL is limited to " ++ toString maxUrlLen ++ " bytes"))
  let url ← (library.parse call.url).mapError fun message => .invalid ("$http: " ++ message)
  failIf (url.scheme ≠ "https")
    (.invalid ("$http: " ++ library.redact call.url ++ " is " ++ url.scheme ++
      ", and only https is allowed"))
  failIf (url.username ≠ "" ∨ url.password.isSome)
    (.invalid "$http: credentials in a URL are refused; send an Authorization header instead")
  let host ← okOr (.invalid "$http: the request has no host") url.host
  let port ← okOr (.invalid ("$http: " ++ library.redact call.url ++ " has no port")) url.port
  failIf (hook.allow.patterns = [])
    (.invalid "$http: no hosts are allowed — set LAZYPOCK_HOOK_HTTP_ALLOWLIST to name them")
  failIf (¬ hook.allow.allows (checkedHost host) port)
    (.invalid ("$http: " ++ checkedHost host ++ ":" ++ toString port ++
      " is not in LAZYPOCK_HOOK_HTTP_ALLOWLIST"))
  failIf (call.method ∉ allowedMethods)
    (.invalid ("$http: " ++ call.method ++ " is not an allowed method (allowed: " ++
      join ", " allowedMethods ++ ")"))
  checkHeaders call.headers
  checkBody call.method call.body
  return (host, port)

/-- The addresses of a host, every one of them public; the first one is pinned. -/
def checkAddresses (host : String) (answer : Result (List IpAddr)) : Result IpAddr := do
  let addresses ← answer
  let first ← okOr (.invalid ("$http: " ++ host ++ " resolved to no address")) addresses.head?
  addresses.forM fun address => failIf (isPublicIp address = false)
    (.invalid ("$http: " ++ host ++ " resolves to " ++ library.display address ++
      ", which is not a public address"))
  return first

/-- Everything decided before a socket is opened; `resolve` answers for a host and a port. -/
@[grind =]
def prepare (resolve : String → ℕ → Result (List IpAddr)) (call : HttpCall) :
    Except Failure Prepared :=
  match hook.check library call with
  | .error e => .error (.refused e)
  | .ok (host, port) =>
    match clamp (50 * millisecond) hook.budget (call.timeout.getD defaultTimeout) with
    | none => .error .panicked
    | some timeout =>
      match checkAddresses library (checkedHost host) (resolve (checkedHost host) port) with
      | .error e => .error (.refused e)
      | .ok address => .ok ⟨call.method, call.url, checkedHost host, call.headers, call.body, address,
          port, timeout⟩

end HookHttp

/-- Where the client connects: to the pinned address when the host in the URL is the name of the pin,
else to what the host resolves to then. -/
def connected (host : String) (prepared : Prepared) (again : String → IpAddr) : IpAddr :=
  if toAsciiLowercase host = prepared.host then prepared.address else again host

/-! ### What the gate is for -/

section Gate

variable (library : Library) (hook : HookHttp) (resolve : String → ℕ → Result (List IpAddr))

/-- A header that a hook may send. -/
def Clean (header : String × String) : Prop :=
  toAsciiLowercase header.1 ∉ forbiddenHeaders ∧
    (∀ c ∈ header.1.toList, isControl c = false) ∧ ∀ c ∈ header.2.toList, isControl c = false

/-- A request that may be sent, to a host and a port that resolved to some addresses. -/
structure Gated (prepared : Prepared) (url : Url) (host : String) (addresses : List IpAddr) : Prop where
  parsed : library.parse prepared.url = .ok url
  https : url.scheme = "https"
  credentials : url.username = "" ∧ url.password = none
  named : url.host = some host
  onPort : url.port = some prepared.port
  granted : ∃ entry ∈ HostAllowlist.entries hook.raw, Grants entry (checkedHost host) prepared.port
  resolved : resolve (checkedHost host) prepared.port = .ok addresses
  isPublic : ∀ address ∈ addresses, isPublicIp address = true
  headers : ∀ header ∈ prepared.headers, Clean header
  body : ∀ body ∈ prepared.body, Char.ofNat 0 ∉ body.toList
  /-- Whatever the host resolves to next. -/
  connected : ∀ again, connected host prepared again ∈ addresses

/-- The gate does not panic, and what it sends may be sent. -/
structure Safe (call : HttpCall) : Prop where
  panic : ¬ hook.prepare library resolve call = .error .panicked
  gated : ∀ prepared, hook.prepare library resolve call = .ok prepared →
    ∃ url host addresses, Gated library hook resolve prepared url host addresses

/-- A call that passes every check that looks at neither the time nor the addresses. -/
structure Admissible (call : HttpCall) (url : Url) (host : String) (port : ℕ) : Prop where
  short : byteLen call.url ≤ maxUrlLen
  parsed : library.parse call.url = .ok url
  https : url.scheme = "https"
  credentials : url.username = "" ∧ url.password = none
  named : url.host = some host
  onPort : url.port = some port
  allowed : hook.allow.allows (checkedHost host) port = true
  method : call.method ∈ allowedMethods
  headers : checkHeaders call.headers = .ok ()
  body : checkBody call.method call.body = .ok ()

/-- A name with addresses, all of them public. -/
def ResolvesPublic (host : String) (port : ℕ) : Prop :=
  ∃ addresses, resolve host port = .ok addresses ∧ addresses ≠ [] ∧
    ∀ address ∈ addresses, isPublicIp address = true

/-- The calls for which the gate is right: there is time enough, and the host is written without a root
dot. -/
structure Careful (call : HttpCall) : Prop where
  budget : ∀ url host port, Admissible library hook call url host port →
    50 * millisecond ≤ hook.budget
  spelling : ∀ url host port, Admissible library hook call url host port →
    ResolvesPublic resolve (checkedHost host) port → host.toList.getLast? ≠ some '.'

variable {library hook resolve} {call : HttpCall} {prepared : Prepared} {url : Url} {host : String}
  {port : ℕ}

theorem forM_eq_ok {α : Type} {f : α → Result Unit} {items : List α} :
    items.forM f = .ok () ↔ ∀ a ∈ items, f a = .ok () := by
  induction items with
  | nil => simp [List.forM_nil, pure, Except.pure]
  | cons a items ih =>
    rw [List.forall_mem_cons, ← ih]
    refine (bind_eq_ok (x := f a)).trans ?_
    exact ⟨fun ⟨_, ha, hrest⟩ => ⟨ha, hrest⟩, fun ⟨ha, hrest⟩ => ⟨(), ha, hrest⟩⟩

theorem clean_of_checkHeader {header : String × String} (h : checkHeader header = .ok ()) :
    Clean header := by
  obtain ⟨_, hforbidden, h⟩ := bind_eq_ok.mp h
  obtain ⟨_, -, h⟩ := bind_eq_ok.mp h
  obtain ⟨hname, hvalue⟩ := not_or.mp (failIf_eq_ok.mp h)
  refine ⟨failIf_eq_ok.mp hforbidden, fun c hc => ?_, fun c hc => ?_⟩
  · by_contra hcontrol
    exact hname (List.any_eq_true.mpr ⟨c, hc, by simp [Bool.eq_true_of_not_eq_false hcontrol]⟩)
  · by_contra hcontrol
    exact hvalue (List.any_eq_true.mpr ⟨c, hc, Bool.eq_true_of_not_eq_false hcontrol⟩)

theorem clean_of_checkHeaders {headers : List (String × String)} (h : checkHeaders headers = .ok ()) :
    ∀ header ∈ headers, Clean header := by
  obtain ⟨_, -, h⟩ := bind_eq_ok.mp h
  exact fun header hheader => clean_of_checkHeader (forM_eq_ok.mp h header hheader)

theorem notMem_of_checkBody {method : String} {body : Option String}
    (h : checkBody method body = .ok ()) : ∀ text ∈ body, Char.ofNat 0 ∉ text.toList := by
  rintro text ⟨⟩
  obtain ⟨_, -, h⟩ := bind_eq_ok.mp h
  obtain ⟨_, -, h⟩ := bind_eq_ok.mp h
  exact failIf_eq_ok.mp h

/-- An allowlist that allows something is not empty. -/
theorem ne_nil_of_allows {list : HostAllowlist} (h : list.allows host port = true) :
    list.patterns ≠ [] := by
  intro hnil
  simp [HostAllowlist.allows, hnil] at h

/-- **A call passes the checks when it is admissible.** -/
theorem check_eq_ok : hook.check library call = .ok (host, port) ↔
    ∃ url, Admissible library hook call url host port := by
  constructor
  · intro h
    obtain ⟨_, hshort, h⟩ := bind_eq_ok.mp h
    obtain ⟨url, hparsed, h⟩ := bind_eq_ok.mp h
    obtain ⟨_, hscheme, h⟩ := bind_eq_ok.mp h
    obtain ⟨_, hcredentials, h⟩ := bind_eq_ok.mp h
    obtain ⟨written, hhost, h⟩ := bind_eq_ok.mp h
    obtain ⟨portNumber, hport, h⟩ := bind_eq_ok.mp h
    obtain ⟨_, -, h⟩ := bind_eq_ok.mp h
    obtain ⟨_, hallowed, h⟩ := bind_eq_ok.mp h
    obtain ⟨_, hmethod, h⟩ := bind_eq_ok.mp h
    obtain ⟨_, hheaders, h⟩ := bind_eq_ok.mp h
    obtain ⟨_, hbody, h⟩ := bind_eq_ok.mp h
    obtain ⟨rfl, rfl⟩ := Prod.mk.inj (Except.ok.inj h)
    obtain ⟨husername, hpassword⟩ := not_or.mp (failIf_eq_ok.mp hcredentials)
    exact ⟨url, not_lt.mp (failIf_eq_ok.mp hshort), mapError_eq_ok.mp hparsed,
      not_not.mp (failIf_eq_ok.mp hscheme), ⟨not_not.mp husername, by simpa using hpassword⟩,
      okOr_eq_ok.mp hhost, okOr_eq_ok.mp hport, not_not.mp (failIf_eq_ok.mp hallowed),
      not_not.mp (failIf_eq_ok.mp hmethod), hheaders, hbody⟩
  · rintro ⟨url, h⟩
    refine bind_eq_ok.mpr ⟨(), failIf_eq_ok.mpr (not_lt.mpr h.short), ?_⟩
    refine bind_eq_ok.mpr ⟨url, mapError_eq_ok.mpr h.parsed, ?_⟩
    refine bind_eq_ok.mpr ⟨(), failIf_eq_ok.mpr (not_not.mpr h.https), ?_⟩
    refine bind_eq_ok.mpr ⟨(), failIf_eq_ok.mpr ?_, ?_⟩
    · simp [h.credentials.1, h.credentials.2]
    refine bind_eq_ok.mpr ⟨host, okOr_eq_ok.mpr h.named, ?_⟩
    refine bind_eq_ok.mpr ⟨port, okOr_eq_ok.mpr h.onPort, ?_⟩
    refine bind_eq_ok.mpr ⟨(), failIf_eq_ok.mpr (ne_nil_of_allows h.allowed), ?_⟩
    refine bind_eq_ok.mpr ⟨(), failIf_eq_ok.mpr (not_not.mpr h.allowed), ?_⟩
    refine bind_eq_ok.mpr ⟨(), failIf_eq_ok.mpr (not_not.mpr h.method), ?_⟩
    exact bind_eq_ok.mpr ⟨(), h.headers, bind_eq_ok.mpr ⟨(), h.body, rfl⟩⟩

theorem checkAddresses_eq_ok {answer : Result (List IpAddr)} {address : IpAddr} :
    HookHttp.checkAddresses library host answer = .ok address ↔
      ∃ addresses, answer = .ok addresses ∧ addresses.head? = some address ∧
        ∀ address ∈ addresses, isPublicIp address = true := by
  constructor
  · intro h
    obtain ⟨addresses, hanswer, h⟩ := bind_eq_ok.mp h
    obtain ⟨first, hfirst, h⟩ := bind_eq_ok.mp h
    obtain ⟨_, hpublic, h⟩ := bind_eq_ok.mp h
    obtain rfl := Except.ok.inj h
    exact ⟨addresses, hanswer, okOr_eq_ok.mp hfirst, fun address haddress =>
      Bool.eq_true_of_not_eq_false (failIf_eq_ok.mp (forM_eq_ok.mp hpublic address haddress))⟩
  · rintro ⟨addresses, hanswer, hfirst, hpublic⟩
    refine bind_eq_ok.mpr ⟨addresses, hanswer, bind_eq_ok.mpr ⟨address, okOr_eq_ok.mpr hfirst, ?_⟩⟩
    refine bind_eq_ok.mpr ⟨(), forM_eq_ok.mpr fun other hother => failIf_eq_ok.mpr ?_, rfl⟩
    simp [hpublic other hother]

/-- **What is sent was checked**, and its address is one that the host resolved to. -/
theorem prepare_eq_ok (h : hook.prepare library resolve call = .ok prepared) :
    ∃ url host addresses, Admissible library hook call url host prepared.port ∧
      50 * millisecond ≤ hook.budget ∧ prepared.url = call.url ∧ prepared.host = checkedHost host ∧
      prepared.headers = call.headers ∧ prepared.body = call.body ∧
      resolve (checkedHost host) prepared.port = .ok addresses ∧
      addresses.head? = some prepared.address ∧ ∀ address ∈ addresses, isPublicIp address = true := by
  unfold HookHttp.prepare at h
  split at h
  · cases h
  · rename_i host port hcheck
    obtain ⟨url, hadmissible⟩ := check_eq_ok.mp hcheck
    split at h
    · cases h
    · rename_i timeout hclamp
      split at h
      · cases h
      · rename_i address haddresses
        obtain rfl := Except.ok.inj h
        obtain ⟨addresses, hanswer, hfirst, hpublic⟩ := checkAddresses_eq_ok.mp haddresses
        unfold clamp at hclamp
        split_ifs at hclamp with hbudget
        all_goals exact ⟨url, host, addresses, hadmissible, hbudget, rfl, rfl, rfl, rfl, hanswer, hfirst,
          hpublic⟩

theorem checkedHost_eq_iff :
    toAsciiLowercase host = checkedHost host ↔ host.toList.getLast? ≠ some '.' := by
  rw [checkedHost, eq_comm, trimEndMatches_eq_self, toAsciiLowercase, String.toList_ofList,
    List.getLast?_map, ne_eq, ne_eq, Option.map_eq_some_iff]
  simp only [toLower_eq_dot_iff, exists_eq_right]

theorem clamp_eq_none {low high value : ℕ} : clamp low high value = none ↔ high < low := by
  unfold clamp
  split_ifs with h <;> simp [h, not_le.mp]

/-- **The gate panics on admissible calls when it has no time.** -/
theorem prepare_eq_panicked : hook.prepare library resolve call = .error .panicked ↔
    (∃ url host port, Admissible library hook call url host port) ∧
      hook.budget < 50 * millisecond := by
  unfold HookHttp.prepare
  cases hcheck : hook.check library call with
  | error e =>
    refine iff_of_false (by simp) ?_
    rintro ⟨⟨url, host, port, hadmissible⟩, -⟩
    rw [check_eq_ok.mpr ⟨url, hadmissible⟩] at hcheck
    cases hcheck
  | ok place =>
    obtain ⟨url, hadmissible⟩ := check_eq_ok.mp hcheck
    rw [and_iff_right ⟨url, place.1, place.2, hadmissible⟩, ← clamp_eq_none]
    dsimp only
    cases clamp (50 * millisecond) hook.budget (call.timeout.getD defaultTimeout) with
    | none => simp
    | some timeout =>
      refine iff_of_false ?_ (by simp)
      dsimp only
      split <;> simp

/-- An admissible call to a name with public addresses is sent, when there is time. -/
theorem exists_prepare_eq_ok (h : Admissible library hook call url host port)
    (hbudget : 50 * millisecond ≤ hook.budget)
    (hresolves : ResolvesPublic resolve (checkedHost host) port) :
    ∃ prepared, hook.prepare library resolve call = .ok prepared ∧ prepared.host = checkedHost host := by
  obtain ⟨addresses, hanswer, hne, hpublic⟩ := hresolves
  obtain ⟨first, rest, rfl⟩ := List.exists_cons_of_ne_nil hne
  unfold HookHttp.prepare
  rw [check_eq_ok.mpr ⟨url, h⟩]
  dsimp only
  rw [clamp, if_pos hbudget]
  dsimp only
  rw [checkAddresses_eq_ok.mpr ⟨_, hanswer, List.head?_cons, hpublic⟩]
  exact ⟨_, rfl, rfl⟩

/-- A host that a safe call reaches is written without a root dot. -/
theorem Safe.spelling (h : Safe library hook resolve call)
    (hadmissible : Admissible library hook call url host port)
    (hbudget : 50 * millisecond ≤ hook.budget)
    (hresolves : ResolvesPublic resolve (checkedHost host) port) : host.toList.getLast? ≠ some '.' := by
  obtain ⟨prepared, hprepared, hpin⟩ := exists_prepare_eq_ok hadmissible hbudget hresolves
  obtain ⟨url', host', addresses, hgated⟩ := h.gated prepared hprepared
  obtain ⟨_, _, _, -, -, hurl, -⟩ := prepare_eq_ok hprepared
  obtain rfl : url = url' := Except.ok.inj (hadmissible.parsed.symm.trans (hurl ▸ hgated.parsed))
  obtain rfl : host = host' := Option.some.inj (hadmissible.named.symm.trans hgated.named)
  -- An address that is not public is none of those that were checked.
  obtain ⟨inside, hinside⟩ := exists_private
  have hconnected := hgated.connected fun _ => inside
  rw [← checkedHost_eq_iff, ← hpin]
  by_contra hpinned
  rw [connected, if_neg hpinned] at hconnected
  exact absurd (hgated.isPublic inside hconnected) (by simp [hinside])

/-- **The gate is right about a call exactly when it is careful.** -/
theorem gate_iff : Safe library hook resolve call ↔ Careful library hook resolve call := by
  constructor
  · intro h
    have hbudget : ∀ url host port, Admissible library hook call url host port →
        50 * millisecond ≤ hook.budget := by
      intro url host port hadmissible
      by_contra hshort
      exact h.panic (prepare_eq_panicked.mpr ⟨⟨url, host, port, hadmissible⟩, not_le.mp hshort⟩)
    exact ⟨hbudget, fun url host port hadmissible hresolves =>
      h.spelling hadmissible (hbudget url host port hadmissible) hresolves⟩
  · intro h
    refine ⟨fun hpanic => ?_, fun prepared hprepared => ?_⟩
    · obtain ⟨⟨url, host, port, hadmissible⟩, hshort⟩ := prepare_eq_panicked.mp hpanic
      exact absurd (h.budget url host port hadmissible) (not_le.mpr hshort)
    · obtain ⟨url, host, addresses, hadmissible, -, hurl, hpin, hheaders, hbody, hanswer, hfirst,
        hpublic⟩ := prepare_eq_ok hprepared
      have hgranted := HostAllowlist.grants_of_allows hook.parsed hadmissible.allowed
      rw [checkedHost, trimEndMatches_trimEndMatches, toAsciiLowercase_trimEndMatches] at hgranted
      have hmem : prepared.address ∈ addresses := List.mem_of_mem_head? hfirst
      refine ⟨url, host, addresses, hurl ▸ hadmissible.parsed, hadmissible.https,
        hadmissible.credentials, hadmissible.named, hadmissible.onPort, hgranted, hanswer, hpublic,
        hheaders ▸ clean_of_checkHeaders hadmissible.headers,
        hbody ▸ notMem_of_checkBody hadmissible.body, fun again => ?_⟩
      have hspelling := h.spelling url host prepared.port hadmissible
        ⟨addresses, hanswer, List.ne_nil_of_mem hmem, hpublic⟩
      rw [connected, if_pos ((checkedHost_eq_iff.mpr hspelling).trans hpin.symm)]
      exact hmem

end Gate

section RootDot

def webhookUrl : String := "https://api.example.com./hook"

/-- What the parser makes of the URL. -/
def webhook : Url := ⟨"https", "", none, some "api.example.com.", some 443⟩

def webhookLibrary : Library where
  parse url := if url = webhookUrl then .ok webhook else .error "relative URL without a base"
  redact url := url
  display _ := ""

/-- A gate that allows one host, with two seconds for a dispatch. -/
def webhookGate : HookHttp where
  raw := "api.example.com"
  allow := ⟨[⟨"api.example.com", false, 443⟩]⟩
  parsed := by decide
  budget := 2000 * millisecond

/-- **A host that is written with a root dot is resolved again.** -/
theorem root_dot_escapes :
    ¬ ∀ (library : Library) (hook : HookHttp) (resolve : String → ℕ → Result (List IpAddr))
      (call : HttpCall), Safe library hook resolve call := by
  intro hall
  have hadmissible : Admissible webhookLibrary webhookGate ⟨"GET", webhookUrl, [], none, none⟩ webhook
      "api.example.com." 443 := by
    refine ⟨by decide, ?_, rfl, ⟨rfl, rfl⟩, rfl, rfl, ?_, ?_, ?_, ?_⟩
    · simp [webhookLibrary]
    · decide
    · decide
    · rfl
    · rfl
  have hresolves : ResolvesPublic (fun _ _ => .ok [.v4 (BitVec.ofNat 32 (8 * 256 ^ 3 + 8))])
      (checkedHost "api.example.com.") 443 :=
    ⟨_, rfl, List.cons_ne_nil _ _, by decide⟩
  exact (hall _ _ _ _).spelling hadmissible (by decide) hresolves (by decide)

end RootDot

end LazyPock.Http
