import LazyPock.Net.Addresses
import LazyPock.Core.Error

/-!
# Who a request came from

The trusted proxies of `crates/core/src/net.rs` and the address of a client in
`crates/api/src/client.rs`. A proxy appends to `X-Forwarded-For`, so what stands to the left of the
rightmost entry that is not a proxy was written by the client. The server reads the first line of the
header only, and passes over the entries that are no addresses.

## Main definitions

* `Net.TrustedNet`, `Net.TrustedProxies`.
* `Net.Headers`, `Net.forwarded`, `Net.address`.
* `Net.author`, `Net.written`: the rightmost entry that is not a proxy, and what
  stands from it on.
* `Net.Says`: the address that the line which is read comes down to.

## Main results

* `Net.TrustedNet.contains_iff`: an entry covers the addresses with its first bits.
* `Net.address_eq_iff_line`: the address of a client is the one the line says.
* `Net.address_eq_iff`: exactly when two requests that the proxies wrote alike are seen as
  one client.
-/

namespace LazyPock.Net

open Text

/-! ### Trusted proxies -/

/-- The width of an address. -/
def IpAddr.bits : IpAddr → ℕ
  | .v4 _ => 32
  | .v6 _ => 128

/-- An address, or a block of addresses. -/
structure TrustedNet where
  base : IpAddr
  /-- How many leading bits are significant. -/
  length : ℕ
  length_le : length ≤ base.bits

/-- An address as 128 bits. -/
def asV6 : IpAddr → BitVec 128
  | .v6 v6 => v6
  | .v4 v4 => mapped v4

/-- The mask for a length. -/
def v6Mask (length : ℕ) : BitVec 128 :=
  if length = 0 then BitVec.ofNat 128 0 else BitVec.allOnes 128 <<< (128 - length)

namespace TrustedNet

variable (net : TrustedNet)

/-- The length counted from the start of the 128-bit form. -/
def lengthInV6 : ℕ :=
  match net.base with
  | .v4 _ => 96 + net.length
  | .v6 _ => net.length

/-- Whether this entry covers an address. -/
def contains (address : IpAddr) : Bool :=
  let mask := v6Mask net.lengthInV6
  asV6 net.base &&& mask = asV6 address &&& mask

theorem lengthInV6_le : net.lengthInV6 ≤ 128 := by
  obtain ⟨base, length, h⟩ := net
  cases base with
  | v4 bits =>
    have : length ≤ 32 := h
    simp only [lengthInV6]
    omega
  | v6 bits => exact h

end TrustedNet

/-- The bits of a mask. -/
theorem getLsbD_v6Mask {length : ℕ} (h : length ≤ 128) (i : ℕ) :
    (v6Mask length).getLsbD i = decide (128 - length ≤ i ∧ i < 128) := by
  rw [v6Mask]
  split_ifs with hzero
  · simp [hzero]
  · rw [BitVec.getLsbD_shiftLeft, BitVec.getLsbD_allOnes]
    grind

/-- Two masked values are the same where the values are, without the bits that are masked out. -/
theorem and_v6Mask_eq_iff {length : ℕ} (h : length ≤ 128) (a b : BitVec 128) :
    a &&& v6Mask length = b &&& v6Mask length ↔ a >>> (128 - length) = b >>> (128 - length) := by
  constructor <;> intro heq
  · refine BitVec.eq_of_getLsbD_eq fun i hi => ?_
    have hbit := congrArg (fun v => v.getLsbD (128 - length + i)) heq
    simp only [BitVec.getLsbD_and, getLsbD_v6Mask h] at hbit
    rw [BitVec.getLsbD_ushiftRight, BitVec.getLsbD_ushiftRight]
    by_cases hlt : 128 - length + i < 128
    · simpa [hlt] using hbit
    · rw [BitVec.getLsbD_of_ge _ _ (by omega), BitVec.getLsbD_of_ge _ _ (by omega)]
  · refine BitVec.eq_of_getLsbD_eq fun i hi => ?_
    rw [BitVec.getLsbD_and, BitVec.getLsbD_and, getLsbD_v6Mask h]
    by_cases hlow : 128 - length ≤ i
    · have hbit := congrArg (fun v => v.getLsbD (i - (128 - length))) heq
      simp only [BitVec.getLsbD_ushiftRight] at hbit
      rw [Nat.add_sub_cancel' hlow] at hbit
      rw [hbit]
    · simp [hlow]

namespace TrustedNet

/-- **An entry covers the addresses with its first bits.** -/
theorem contains_iff (net : TrustedNet) (address : IpAddr) :
    net.contains address = true ↔
      asV6 net.base >>> (128 - net.lengthInV6) = asV6 address >>> (128 - net.lengthInV6) := by
  rw [contains, decide_eq_true_eq, and_v6Mask_eq_iff net.lengthInV6_le]

end TrustedNet

/-- A list of trusted peers. -/
structure TrustedProxies where
  nets : List TrustedNet

namespace TrustedProxies

/-- Whether any entry covers an address. -/
def contains (trusted : TrustedProxies) (address : IpAddr) : Bool :=
  trusted.nets.any fun net => net.contains address

end TrustedProxies

/-! ### The headers -/

/-- The value of a header line: bytes, none of them a control character other than a tab. -/
structure HeaderValue where
  bytes : String
  valid : ∀ c ∈ bytes.toList, c.toNat < 256 ∧ (32 ≤ c.toNat ∨ c = '\t') ∧ c.toNat ≠ 127

theorem valid_of_all {bytes : String} (h : bytes.toList.all (fun c =>
      decide (c.toNat < 256 ∧ (32 ≤ c.toNat ∨ c = '\t') ∧ c.toNat ≠ 127)) = true) :
    ∀ c ∈ bytes.toList, c.toNat < 256 ∧ (32 ≤ c.toNat ∨ c = '\t') ∧ c.toNat ≠ 127 :=
  fun c hc => of_decide_eq_true (List.all_eq_true.mp h c hc)

/-- Whether a byte is visible ASCII, or a tab. -/
def isVisible (c : Char) : Bool := (32 ≤ c.toNat && c.toNat < 127) || c = '\t'

/-- `HeaderValue::to_str` -/
def HeaderValue.toStr (value : HeaderValue) : Option String :=
  if value.bytes.toList.all isVisible then some value.bytes else none

/-- The lines of the headers that name a client, in the order they arrived in. -/
structure Headers where
  /-- `X-Forwarded-For` -/
  forwardedFor : List HeaderValue
  /-- `X-Real-IP` -/
  realIp : List HeaderValue

/-- The line that is read: the first one. -/
def Headers.line (headers : Headers) : Option String :=
  (headers.forwardedFor.head?.or headers.realIp.head?).bind HeaderValue.toStr

/-- The forwarding chain, right to left. -/
def forwarded (headers : Headers) : List IpAddr :=
  match headers.line with
  | none => []
  | some raw => (splitOn ',' raw).reverse.filterMap fun entry => IpAddr.parse (trim entry)

/-- The address a request came from. -/
@[grind =]
def address (trusted : TrustedProxies) (peer : Option IpAddr) (headers : Headers) : Option IpAddr := do
  let peer ← peer
  if !trusted.contains peer then return peer
  match (forwarded headers).find? fun candidate => !trusted.contains candidate with
  | some candidate => return candidate
  -- Every entry was a proxy, or the header was absent or unreadable.
  | none => return peer

/-! ### What the proxies wrote -/

section Written

variable (trusted : TrustedProxies)

/-- The entries of the forwarding header, its lines joined with commas. -/
def Headers.entries (headers : Headers) : List String :=
  headers.forwardedFor.flatMap fun line => splitOn ',' line.bytes

/-- The address an entry is. -/
def entryAddress (entry : String) : Option IpAddr :=
  if entry.toList.all isVisible then IpAddr.parse (trim entry) else none

/-- An entry is the address of a trusted proxy. -/
def isProxy (entry : String) : Bool := (entryAddress entry).any trusted.contains

/-- The rightmost entry that is not the address of a trusted proxy. -/
def author (entries : List String) : Option String := entries.reverse.find? fun e => !isProxy trusted e

/-- The entries from the rightmost one on that is not the address of a trusted proxy: all of them,
where there is none. -/
def written : List String → List String
  | [] => []
  | entry :: rest =>
    if rest.any fun e => !isProxy trusted e then written rest else entry :: rest

/-- No entry is an address other than that of a proxy. -/
def Silent (entries : List String) : Prop :=
  ∀ e ∈ entries, ∀ a, entryAddress e = some a → trusted.contains a = true

/-- **What the line that is read comes down to**: an entry with the address of a client, and behind it
no other; or none at all. -/
@[grind =]
def Says (headers : Headers) : Option IpAddr → Prop
  | some client => trusted.contains client = false ∧
    ∃ raw, headers.line = some raw ∧ ∃ before entry behind,
      splitOn ',' raw = before ++ entry :: behind ∧ entryAddress entry = some client ∧
        Silent trusted behind
  | none => ∀ raw, headers.line = some raw → Silent trusted (splitOn ',' raw)

end Written

/-! ### The address of a client -/

section Client

variable {trusted : TrustedProxies} {headers : Headers}

/-- The pieces of a text are made of its characters. -/
theorem mem_of_mem_splitOn {sep : Char} {s piece : String} (h : piece ∈ splitOn sep s) {c : Char}
    (hc : c ∈ piece.toList) : c ∈ s.toList := by
  obtain ⟨cs, hcs, rfl⟩ := List.mem_map.mp h
  rw [String.toList_ofList] at hc
  exact mem_of_mem_splitChars hcs hc

theorem visible_of_line {raw : String} (h : headers.line = some raw) :
    raw.toList.all isVisible = true := by
  obtain ⟨value, -, hvalue⟩ := Option.bind_eq_some_iff.mp h
  rw [HeaderValue.toStr] at hvalue
  split_ifs at hvalue with hvisible
  rwa [← Option.some.inj hvalue]

/-- The entries of the line that is read are read as they are. -/
theorem forwarded_of_line {raw : String} (h : headers.line = some raw) :
    forwarded headers = (splitOn ',' raw).reverse.filterMap entryAddress := by
  have hvisible := List.all_eq_true.mp (visible_of_line h)
  simp only [forwarded, h]
  refine List.filterMap_congr fun entry hentry => ?_
  have hall : entry.toList.all isVisible = true :=
    List.all_eq_true.mpr fun c hc =>
      hvisible c (mem_of_mem_splitOn (List.mem_reverse.mp hentry) hc)
  rw [entryAddress, if_pos hall]

theorem silent_iff {entries : List String} :
    Silent trusted entries ↔
      ∀ e ∈ entries, (entryAddress e).any (fun a => !trusted.contains a) = false := by
  refine forall₂_congr fun e _ => ?_
  cases entryAddress e <;> simp

/-- **The line says the address that is found in it.** -/
theorem says_iff (client : Option IpAddr) :
    Says trusted headers client ↔
      (forwarded headers).find? (fun candidate => !trusted.contains candidate) = client := by
  cases hline : headers.line with
  | none =>
    have hforwarded : forwarded headers = [] := by simp only [forwarded, hline]
    cases client with
    | none => simp [Says, hline, hforwarded]
    | some a => simp [Says, hline, hforwarded]
  | some raw =>
    rw [forwarded_of_line hline]
    cases client with
    | none =>
      simp only [Says, hline, Option.some.injEq, forall_eq', List.find?_eq_none,
        List.mem_filterMap, List.mem_reverse, Silent]
      constructor
      · rintro hsilent a ⟨e, he, ha⟩
        simp [hsilent e he a ha]
      · intro hnone e he a ha
        simpa using hnone a ⟨e, he, ha⟩
    | some a =>
      rw [List.find?_filterMap, Option.bind_eq_some_iff]
      simp only [Says, hline, Option.some.injEq, exists_eq_left']
      constructor
      · rintro ⟨hclient, before, entry, behind, hraw, hentry, hsilent⟩
        refine ⟨entry, ?_, hentry⟩
        rw [List.find?_eq_some_iff_append]
        refine ⟨by simp [hentry, hclient], behind.reverse, before.reverse, by simp [hraw], ?_⟩
        intro e he
        rw [silent_iff.mp hsilent e (List.mem_reverse.mp he), Bool.not_false]
      · rintro ⟨entry, hfind, hentry⟩
        obtain ⟨hclient, right, left, hraw, hright⟩ := List.find?_eq_some_iff_append.mp hfind
        refine ⟨by simpa [hentry] using hclient, left.reverse, entry, right.reverse, ?_, hentry, ?_⟩
        · rw [← List.reverse_reverse (splitOn ',' raw), hraw]
          simp
        · refine silent_iff.mpr fun e he => ?_
          simpa using hright e (List.mem_reverse.mp he)

/-- With a peer that is no proxy, no header is read. -/
theorem address_of_untrusted {peer : IpAddr} (h : trusted.contains peer = false) (headers : Headers) :
    address trusted (some peer) headers = some peer := by
  simp [address, h]

/-- **The address of a client is the one that the line says.** -/
theorem address_eq_iff_line {peer : IpAddr} (h : trusted.contains peer = true) {result : IpAddr} :
    address trusted (some peer) headers = some result ↔
      ∃ client, Says trusted headers client ∧ client.getD peer = result := by
  have hfound : address trusted (some peer) headers =
      some (((forwarded headers).find? fun candidate => !trusted.contains candidate).getD peer) := by
    simp only [address]
    cases (forwarded headers).find? fun candidate => !trusted.contains candidate <;> simp [h]
  rw [hfound, Option.some.injEq]
  constructor
  · intro hresult
    exact ⟨_, (says_iff _).mpr rfl, hresult⟩
  · rintro ⟨client, hsays, hresult⟩
    rwa [(says_iff client).mp hsays]

/-- The rightmost entry that is not a proxy is part of what the proxies wrote. -/
theorem author_written (entries : List String) :
    author trusted (written trusted entries) = author trusted entries := by
  induction entries with
  | nil => rfl
  | cons entry rest ih =>
    rw [written]
    split_ifs with hrest
    · obtain ⟨e, he, hproxy⟩ := List.any_eq_true.mp hrest
      rw [ih, author, author, List.reverse_cons, List.find?_append]
      cases hfind : rest.reverse.find? fun e => !isProxy trusted e with
      | some found => rfl
      | none => exact absurd hproxy (List.find?_eq_none.mp hfind e (List.mem_reverse.mpr he))
    · rfl

/-- An author is not a proxy. -/
theorem untrusted_of_author {entries : List String} {e : String} {a : IpAddr}
    (h : author trusted entries = some e) (ha : entryAddress e = some a) :
    trusted.contains a = false := by
  have hproxy := List.find?_some h
  simpa [isProxy, ha] using hproxy

/-- The address of an author, where it is one, is what the proxies say about the client. -/
def Named (trusted : TrustedProxies) (headers : Headers) (client : Option IpAddr) : Prop :=
  ∀ e a, author trusted headers.entries = some e → entryAddress e = some a → client = some a

/-- **A chain in one readable line names its client.** -/
theorem says_of_author {value : HeaderValue} (hline : headers.forwardedFor = [value])
    (hvisible : value.bytes.toList.all isVisible = true) {e : String} {a : IpAddr}
    (hauthor : author trusted headers.entries = some e) (ha : entryAddress e = some a) :
    Says trusted headers (some a) := by
  have hraw : headers.line = some value.bytes := by
    simp [Headers.line, hline, HeaderValue.toStr, hvisible]
  have hentries : headers.entries = splitOn ',' value.bytes := by simp [Headers.entries, hline]
  have hclient := untrusted_of_author hauthor ha
  rw [author, hentries, List.find?_eq_some_iff_append] at hauthor
  obtain ⟨-, right, left, hsplit, hright⟩ := hauthor
  refine ⟨hclient, value.bytes, hraw, left.reverse, e, right.reverse, ?_, ha, ?_⟩
  · rw [← List.reverse_reverse (splitOn ',' value.bytes), hsplit]
    simp
  · intro x hx b hb
    simpa [isProxy, hb] using hright x (List.mem_reverse.mp hx)

/-- What the proxies name depends on what they wrote. -/
theorem named_congr {headers' : Headers}
    (h : written trusted headers.entries = written trusted headers'.entries)
    (client : Option IpAddr) : Named trusted headers client ↔ Named trusted headers' client := by
  rw [Named, Named, ← author_written, h, author_written]

/-- The address of a client, by what its line says. -/
theorem exists_says (headers : Headers) {peer : IpAddr} (h : trusted.contains peer = true) :
    ∃ client, Says trusted headers client ∧
      address trusted (some peer) headers = some (client.getD peer) :=
  ⟨_, (says_iff _).mpr rfl, (address_eq_iff_line h).mpr ⟨_, (says_iff _).mpr rfl, rfl⟩⟩

/-- **Two requests that the proxies wrote alike are seen as one client, the one the proxies name,
exactly where the lines that are read say it**; and a peer that is no proxy is the client itself. -/
theorem address_eq_iff (trusted : TrustedProxies) (peer : IpAddr) (headers headers' : Headers) :
    (trusted.contains peer = false → address trusted (some peer) headers = some peer) ∧
    (trusted.contains peer = true →
      written trusted headers.entries = written trusted headers'.entries →
      ((address trusted (some peer) headers = address trusted (some peer) headers' ∧
          Named trusted headers (address trusted (some peer) headers) ∧
          Named trusted headers' (address trusted (some peer) headers')) ↔
        ∃ client, Says trusted headers client ∧ Says trusted headers' client ∧
          Named trusted headers client)) := by
  refine ⟨fun h => address_of_untrusted h headers, fun h hwritten => ?_⟩
  obtain ⟨client, hsays, hclient⟩ := exists_says headers h
  obtain ⟨client', hsays', hclient'⟩ := exists_says headers' h
  -- the peer is a proxy and what a line says is not
  have hpeer {c : Option IpAddr} {a : IpAddr} (ha : trusted.contains a = false)
      (hc : c.getD peer = a) : c = some a := by
    cases c with
    | none =>
      rw [Option.getD_none] at hc
      simp [← hc, h] at ha
    | some b => rw [← hc, Option.getD_some]
  rw [hclient, hclient', Option.some.injEq, ← named_congr hwritten]
  constructor
  · rintro ⟨hsame, hnamed, -⟩
    have hclients : client = client' := by
      cases client' with
      | some a => exact hpeer hsays'.1 hsame
      | none =>
        cases client with
        | none => rfl
        | some a => exact (hpeer hsays.1 hsame.symm).symm
    refine ⟨client, hsays, hclients ▸ hsays', fun e a he ha => ?_⟩
    exact hpeer (untrusted_of_author he ha) (Option.some.inj (hnamed e a he ha))
  · rintro ⟨named, hnamed, hnamed', hauthor⟩
    have hfirst : client = named := by rw [← (says_iff _).mp hsays, (says_iff _).mp hnamed]
    have hsecond : client' = named := by rw [← (says_iff _).mp hsays', (says_iff _).mp hnamed']
    have hresult : Named trusted headers (some (client.getD peer)) := by
      intro e a he ha
      rw [hfirst, hauthor e a he ha, Option.getD_some]
    rw [hsecond, ← hfirst]
    exact ⟨rfl, hresult, hresult⟩

/-- One proxy at `10.0.0.1`. -/
def proxy : IpAddr := .v4 (BitVec.ofNat 32 (10 * 256 ^ 3 + 1))

def oneProxy : TrustedProxies := ⟨[⟨proxy, 32, le_refl _⟩]⟩

/-- The client at `1.2.3.4`, which the proxy names. -/
def client : IpAddr := .v4 (BitVec.ofNat 32 (256 ^ 3 + 2 * 256 ^ 2 + 3 * 256 + 4))

/-- A request with a line of its own in front of what the proxy appends to it. -/
def appended : Headers := ⟨[⟨"9.9.9.9, 1.2.3.4", valid_of_all (by decide)⟩], []⟩

/-- A request with another claim. -/
def appended' : Headers := ⟨[⟨"8.8.8.8, 1.2.3.4", valid_of_all (by decide)⟩], []⟩

theorem address_appended :
    address oneProxy (some proxy) appended = address oneProxy (some proxy) appended' := by
  have hauthor : author oneProxy appended.entries = some " 1.2.3.4" := by decide
  have hauthor' : author oneProxy appended'.entries = some " 1.2.3.4" := by decide
  have hclient : entryAddress " 1.2.3.4" = some client := by decide
  have hnamed : Named oneProxy appended (some client) := by
    intro e a he ha
    obtain rfl : " 1.2.3.4" = e := Option.some.inj (hauthor.symm.trans he)
    rw [← ha, hclient]
  have hsame := (address_eq_iff oneProxy proxy appended appended').2 (by decide)
    (by decide)
  exact (hsame.mpr ⟨some client, says_of_author rfl (by decide) hauthor hclient,
    says_of_author rfl (by decide) hauthor' hclient, hnamed⟩).1

/-- The two claims, where the proxy sends a line of its own behind that of the client. -/
def separate : Headers := ⟨[⟨"9.9.9.9", valid_of_all (by decide)⟩, ⟨"1.2.3.4", valid_of_all (by decide)⟩], []⟩

def separate' : Headers := ⟨[⟨"8.8.8.8", valid_of_all (by decide)⟩, ⟨"1.2.3.4", valid_of_all (by decide)⟩], []⟩

/-- The client chooses the address it is seen as: only the first line is read. -/
theorem address_separate_ne : oneProxy.contains proxy = true ∧
    written oneProxy separate.entries = written oneProxy separate'.entries ∧
    author oneProxy separate.entries = some "1.2.3.4" ∧
    entryAddress "1.2.3.4" = some client ∧
    address oneProxy (some proxy) separate ≠ some client ∧
    address oneProxy (some proxy) separate ≠ address oneProxy (some proxy) separate' := by
  decide

end Client

end LazyPock.Net
