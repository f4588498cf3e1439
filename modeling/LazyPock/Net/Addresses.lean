import LazyPock.Core.Text
import Mathlib.Data.BitVec
import Mathlib.Tactic.IntervalCases
import Mathlib.Tactic.NormNum

/-!
# Internet addresses

Addresses as the standard library reads them (`IpAddr::from_str`), and `is_public_ip` of
`crates/core/src/net.rs`: whether an address is on the public internet. An address that spells one of
the other family is judged by the address it spells.

## Main definitions

* `Net.IpAddr`, `Net.IpAddr.parse`.
* `Net.isPublicIp`.

## Main results

* `Net.exists_private`: some address is not public.
-/

namespace LazyPock.Net

open Text

/-- An address of one of the families. -/
inductive IpAddr where
  | v4 (bits : BitVec 32)
  | v6 (bits : BitVec 128)
deriving DecidableEq

/-- One of the four octets of an address, the first one first. -/
def octet (address : BitVec 32) (i : ℕ) : ℕ := address.toNat / 256 ^ (3 - i) % 256

/-- One of the eight segments of an address, the first one first. -/
def segment (address : BitVec 128) (i : ℕ) : ℕ := address.toNat / 65536 ^ (7 - i) % 65536

/-! ### Reading -/

/-- One octet: up to three digits, none of them a leading zero. -/
def parseOctet (s : String) : Option ℕ :=
  if s.toList ≠ [] ∧ s.toList.all isAsciiDigit ∧ s.toList.length ≤ 3 ∧
      (1 < s.toList.length → s.toList.head? ≠ some '0') ∧ Nat.ofDigitChars 10 s.toList 0 < 256 then
    some (Nat.ofDigitChars 10 s.toList 0)
  else none

/-- `Ipv4Addr::from_str` -/
def parseV4 (s : String) : Option (BitVec 32) :=
  match splitOn '.' s with
  | [a, b, c, d] => do
    let a ← parseOctet a
    let b ← parseOctet b
    let c ← parseOctet c
    let d ← parseOctet d
    return BitVec.ofNat 32 (((a * 256 + b) * 256 + c) * 256 + d)
  | _ => none

/-- One group: up to four hexadecimal digits. -/
def parseGroup (s : String) : Option ℕ :=
  if s.toList = [] ∨ 4 < s.toList.length then none
  else s.toList.foldlM (fun value c => (hexDigit c).map fun digit => value * 16 + digit) 0

/-- Groups, of which the last may be two in the form of an IPv4 address. -/
def parseGroups : List String → Option (List ℕ)
  | [] => some []
  | [last] => match parseV4 last with
    | some address => some [address.toNat / 65536, address.toNat % 65536]
    | none => (parseGroup last).map fun group => [group]
  | first :: rest => do
    let group ← parseGroup first
    let groups ← parseGroups rest
    return group :: groups

/-- The text around the first `::`. -/
def splitDouble : List Char → Option (List Char × List Char)
  | [] => none
  | c :: cs => match c, cs with
    | ':', ':' :: rest => some ([], rest)
    | _, _ => (splitDouble cs).map fun (before, after) => (c :: before, after)

/-- The pieces between colons, none where there is no text. -/
def pieces (cs : List Char) : List String :=
  if cs = [] then [] else (splitChars ':' cs).map String.ofList

/-- An address of eight groups. -/
def ofGroups (groups : List ℕ) : BitVec 128 :=
  BitVec.ofNat 128 (groups.foldl (fun value group => value * 65536 + group) 0)

/-- `Ipv6Addr::from_str`: eight groups, or fewer around a `::` that stands for the others. -/
def parseV6 (s : String) : Option (BitVec 128) :=
  match splitDouble s.toList with
  | none => (parseGroups (pieces s.toList)).bind fun groups =>
    if groups.length = 8 then some (ofGroups groups) else none
  | some (before, after) => do
    let head ← (pieces before).mapM parseGroup
    let tail ← parseGroups (pieces after)
    if head.length + tail.length ≤ 7 then
      some (ofGroups (head ++ List.replicate (8 - head.length - tail.length) 0 ++ tail))
    else none

/-- `IpAddr::from_str` -/
def IpAddr.parse (s : String) : Option IpAddr :=
  ((parseV4 s).map IpAddr.v4).or ((parseV6 s).map IpAddr.v6)

/-! ### Public addresses -/

/-- `is_public_v4` -/
def isPublicV4 (address : BitVec 32) : Bool :=
  let a := octet address 0
  let b := octet address 1
  let c := octet address 2
  !(a = 0
    -- `is_private`
    || a = 10 || (a = 172 && 16 ≤ b && b ≤ 31) || (a = 192 && b = 168)
    -- `is_loopback`, `is_link_local`, `is_broadcast`
    || a = 127 || (a = 169 && b = 254) || address = BitVec.ofNat 32 (2 ^ 32 - 1)
    -- `is_documentation`
    || (a = 192 && b = 0 && c = 2) || (a = 198 && b = 51 && c = 100) || (a = 203 && b = 0 && c = 113)
    -- `is_multicast`, `is_unspecified`
    || (224 ≤ a && a ≤ 239) || address = BitVec.ofNat 32 0
    || (a = 100 && 64 ≤ b && b ≤ 127)
    || (a = 192 && b = 0 && c = 0)
    || (a = 192 && b = 88 && c = 99)
    || (a = 198 && (b = 18 || b = 19))
    || 240 ≤ a)

/-- The IPv4 address that two segments spell. -/
def embedded (high low : ℕ) : BitVec 32 := BitVec.ofNat 32 (high * 65536 + low)

/-- Some segments of an address are zero. -/
def zeros (address : BitVec 128) (first last : ℕ) : Bool :=
  (List.range' first (last - first)).all fun i => segment address i = 0

/-- `is_public_v6` -/
def isPublicV6 (address : BitVec 128) : Bool :=
  let s := segment address
  -- `to_ipv4_mapped`
  if zeros address 0 5 && s 5 = 0xffff then isPublicV4 (embedded (s 6) (s 7))
  -- NAT64
  else if s 0 = 0x0064 && s 1 = 0xff9b && zeros address 2 6 then isPublicV4 (embedded (s 6) (s 7))
  -- 6to4
  else if s 0 = 0x2002 then isPublicV4 (embedded (s 1) (s 2))
  else
    -- `is_loopback`, `is_unspecified`, `is_multicast`
    !(address = BitVec.ofNat 128 1 || address = BitVec.ofNat 128 0 || s 0 &&& 0xff00 = 0xff00
      || zeros address 0 6
      || s 0 &&& 0xfe00 = 0xfc00
      || s 0 &&& 0xffc0 = 0xfec0
      || s 0 &&& 0xffc0 = 0xfe80
      || (s 0 = 0x2001 && s 1 = 0x0db8)
      || (s 0 = 0x2001 && s 1 = 0x0000)
      || (s 0 = 0x0064 && s 1 = 0xff9b && s 2 = 0x0001)
      || (s 0 = 0x0100 && zeros address 1 4))

/-- Whether an address is on the public internet. -/
def isPublicIp : IpAddr → Bool
  | .v4 address => isPublicV4 address
  | .v6 address => isPublicV6 address

/-- `to_ipv6_mapped` -/
def mapped (address : BitVec 32) : BitVec 128 := BitVec.ofNat 128 (0xffff * 2 ^ 32 + address.toNat)

/-- An address of the server itself. -/
theorem exists_private : ∃ address, isPublicIp address = false :=
  ⟨.v4 (BitVec.ofNat 32 (127 * 256 ^ 3 + 1)), by decide⟩

example : IpAddr.parse "64:ff9b::10.0.0.1" =
    some (.v6 (BitVec.ofNat 128 (0x64 * 2 ^ 112 + 0xff9b * 2 ^ 96 + 10 * 2 ^ 24 + 1))) := by
  decide

end LazyPock.Net
