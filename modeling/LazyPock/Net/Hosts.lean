import LazyPock.Core.Error
import LazyPock.Net.Addresses

/-!
# Host allowlists

`HostPattern` and `HostAllowlist` of `crates/core/src/net.rs`: an entry names a host, or with `*.` in
front of it the hosts below it, on one port.

## Main definitions

* `Net.HostPattern`, `Net.HostAllowlist`.
* `Net.Grants`: what the text of an entry allows.

## Main results

* `Net.HostPattern.matches_iff`.
* `Net.HostAllowlist.grants_of_allows`: the list allows what one of its entries grants.
-/

namespace LazyPock.Net

open Text

/-- One entry of an allowlist. -/
structure HostPattern where
  /-- The host, lowercased and without a trailing root dot. -/
  host : String
  /-- The subdomains of the host, and not the host itself. -/
  subdomains : Bool
  port : ℕ
deriving DecidableEq

/-- An early return with a message. -/
def refuse (p : Prop) [Decidable p] (message : String) : Except String Unit :=
  if p then .error message else .ok ()

namespace HostPattern

/-- The check of one label of a hostname. -/
def checkLabel (raw label : String) : Except String Unit := do
  refuse (label = "" ∨ 63 < byteLen label)
    (debug raw ++ " has a label that is empty or too long")
  refuse (¬ label.toList.all fun c => isAsciiAlphanumeric c || c = '-' || c = '_')
    (debug raw ++ " has a character a hostname cannot hold")
  refuse (startsWith "-" label ∨ endsWith "-" label)
    (debug raw ++ " has a label that starts or ends with a hyphen")

/-- The text of an entry without spaces and trailing root dots, lowercased. -/
def normalize (raw : String) : String := toAsciiLowercase (trimEndMatches '.' (trim raw))

/-- The message for an entry that is an address. -/
def isAddress (host : String) : String :=
  debug host ++ " is an IP address; name the host, so that the address it resolves to is checked on " ++
    "every call"

/-- The host and the port of an entry. -/
def splitPort (raw : String) : Except String (String × ℕ) :=
  match rsplitOnce ':' raw with
  | some (host, port) => match parseUInt 16 (trim port) with
    | none => .error (debug port ++ " is not a port number")
    | some 0 => .error "a port of 0 is not a port"
    | some port => .ok (host, port)
  | none => .ok (raw, 443)

def parse (entry : String) : Except String HostPattern := do
  let raw := normalize entry
  refuse (raw = "") "an entry is empty"
  -- The text `://` has a slash.
  refuse ('/' ∈ raw.toList ∨ '@' ∈ raw.toList)
    (debug raw ++ " is not a host: give a hostname, without a scheme, a path or credentials")
  refuse ((IpAddr.parse raw).isSome ∨ startsWith "[" raw) (isAddress raw)
  let (host, port) ← splitPort raw
  refuse ((IpAddr.parse host).isSome = true) (isAddress host)
  let (wildcard, host) := match stripPrefix "*." host with
    | some rest => (true, rest)
    | none => (false, host)
  refuse (host = "" ∨ startsWith "." host ∨ endsWith "." host ∨ '*' ∈ host.toList)
    (debug raw ++ " is not a hostname")
  (splitOn '.' host).forM (checkLabel raw)
  return ⟨host, wildcard, port⟩

/-- `matches` -/
def isMatch (pattern : HostPattern) (host : String) (port : ℕ) : Bool :=
  if pattern.port ≠ port then false
  else if !pattern.subdomains then pattern.host = host
  else (stripSuffix pattern.host host).any fun start => endsWith "." start && 1 < byteLen start

end HostPattern

/-- The hosts a hook may reach. -/
structure HostAllowlist where
  patterns : List HostPattern
deriving DecidableEq

namespace HostAllowlist

/-- The entries of a list. -/
def entries (raw : String) : List String := ((splitOn ',' raw).map trim).filter (· ≠ "")

/-- Parse a comma-separated list of hosts. -/
def parse (raw : String) : Except String HostAllowlist := do
  let patterns ← (entries raw).mapM HostPattern.parse
  return ⟨patterns⟩

/-- Whether `host` on `port` is allowed. -/
def allows (list : HostAllowlist) (host : String) (port : ℕ) : Bool :=
  let host := toAsciiLowercase (trimEndMatches '.' host)
  host ≠ "" && list.patterns.any fun pattern => pattern.isMatch host port

end HostAllowlist

/-! ### What an entry grants -/

/-- What an entry names: `h` or `*.h`, with a port behind it or on the port of HTTPS. -/
def Names (entry : String) (subdomains : Bool) (host : String) (port : ℕ) : Prop :=
  ∃ behind, HostPattern.normalize entry = (if subdomains then "*." else "") ++ host ++ behind ∧
    ((behind = "" ∧ port = 443) ∨
      ∃ digits, behind = ":" ++ digits ∧ parseUInt 16 (trim digits) = some port)

/-- What an entry allows: the host that it names, or the hosts below it. -/
def Grants (entry host : String) (port : ℕ) : Prop :=
  Names entry false host port ∨
    ∃ name labels, Names entry true name port ∧ labels ≠ "" ∧ host = labels ++ "." ++ name

section Entries

variable {entry host : String} {port : ℕ} {pattern : HostPattern}

theorem one_lt_byteLen_iff {labels : String} : 1 < byteLen (labels ++ ".") ↔ labels ≠ "" := by
  have hlen : byteLen (labels ++ ".") = byteLen labels + 1 := by
    simp [byteLen]
    rfl
  rw [hlen]
  constructor
  · rintro h rfl
    exact absurd h (by decide)
  · intro h
    obtain ⟨c, cs, hcs⟩ := List.exists_cons_of_ne_nil fun hnil => h (String.toList_eq_nil_iff.mp hnil)
    have hpos := c.utf8Size_pos
    simp only [byteLen, hcs, List.map_cons, List.sum_cons]
    omega

/-- What a pattern matches: its host, or what is below it. -/
theorem HostPattern.isMatch_iff : pattern.isMatch host port = true ↔ pattern.port = port ∧
    ((pattern.subdomains = false ∧ host = pattern.host) ∨
      (pattern.subdomains = true ∧ ∃ labels, labels ≠ "" ∧ host = labels ++ "." ++ pattern.host)) := by
  unfold isMatch
  by_cases hport : pattern.port = port
  · cases hsub : pattern.subdomains with
    | false => simp [hport, eq_comm]
    | true =>
      simp only [hport, ne_eq, not_true_eq_false, if_false, Bool.not_true, Bool.false_eq_true,
        Option.any_eq_true, Bool.and_eq_true, decide_eq_true_eq, true_and]
      rw [or_iff_right (by simp)]
      constructor
      · rintro ⟨start, hstart, hdot, hlen⟩
        obtain ⟨labels, rfl⟩ := endsWith_iff.mp hdot
        exact ⟨labels, one_lt_byteLen_iff.mp hlen, stripSuffix_eq_some.mp hstart⟩
      · rintro ⟨labels, hlabels, rfl⟩
        exact ⟨labels ++ ".", stripSuffix_eq_some.mpr rfl, endsWith_iff.mpr ⟨labels, rfl⟩,
          one_lt_byteLen_iff.mpr hlabels⟩
  · simp [hport]

theorem HostPattern.splitPort_spec {raw name : String} (h : splitPort raw = .ok (name, port)) :
    ∃ behind, raw = name ++ behind ∧ ((behind = "" ∧ port = 443) ∨
      ∃ digits, behind = ":" ++ digits ∧ parseUInt 16 (trim digits) = some port) := by
  unfold splitPort at h
  split at h
  · rename_i before digits hsplit
    split at h
    · cases h
    · cases h
    · rename_i n _ hdigits
      obtain ⟨rfl, rfl⟩ := Prod.mk.inj (Except.ok.inj h)
      refine ⟨":" ++ digits, String.toList_inj.mp ?_, .inr ⟨digits, rfl, hdigits⟩⟩
      rw [rsplitOnce_eq_some hsplit]
      simp
  · obtain ⟨rfl, rfl⟩ := Prod.mk.inj (Except.ok.inj h)
    exact ⟨"", String.append_empty.symm, .inl ⟨rfl, rfl⟩⟩

/-- An entry that is accepted says what its pattern says. -/
theorem HostPattern.names_of_parse (h : parse entry = .ok pattern) :
    Names entry pattern.subdomains pattern.host pattern.port := by
  obtain ⟨_, -, h⟩ := bind_eq_ok.mp h
  obtain ⟨_, -, h⟩ := bind_eq_ok.mp h
  obtain ⟨_, -, h⟩ := bind_eq_ok.mp h
  obtain ⟨⟨name, port⟩, hsplit, h⟩ := bind_eq_ok.mp h
  obtain ⟨_, -, h⟩ := bind_eq_ok.mp h
  obtain ⟨_, -, h⟩ := bind_eq_ok.mp h
  obtain ⟨_, -, h⟩ := bind_eq_ok.mp h
  obtain rfl := Except.ok.inj h
  obtain ⟨behind, hraw, hport⟩ := splitPort_spec hsplit
  refine ⟨behind, ?_, hport⟩
  rw [hraw]
  dsimp only
  cases hstrip : stripPrefix "*." name with
  | none => simp
  | some rest => simp [stripPrefix_eq_some.mp hstrip]

/-- **The list allows what one of its entries grants.** -/
theorem HostAllowlist.grants_of_allows {raw : String} {list : HostAllowlist} (h : parse raw = .ok list)
    (hallows : list.allows host port = true) :
    ∃ entry ∈ entries raw, Grants entry (toAsciiLowercase (trimEndMatches '.' host)) port := by
  obtain ⟨patterns, hpatterns, h⟩ := bind_eq_ok.mp h
  obtain rfl := Except.ok.inj h
  simp only [allows, Bool.and_eq_true, List.any_eq_true] at hallows
  obtain ⟨-, pattern, hpattern, hmatch⟩ := hallows
  obtain ⟨entry, hentry, hparse⟩ := exists_of_mapM hpatterns hpattern
  have hnames := HostPattern.names_of_parse hparse
  obtain ⟨rfl, ⟨hsub, hhost⟩ | ⟨hsub, labels, hlabels, hhost⟩⟩ := HostPattern.isMatch_iff.mp hmatch
  · rw [hsub] at hnames
    exact ⟨entry, hentry, .inl (hhost ▸ hnames)⟩
  · rw [hsub] at hnames
    exact ⟨entry, hentry, .inr ⟨pattern.host, labels, hnames, hlabels, hhost⟩⟩

end Entries

end LazyPock.Net
