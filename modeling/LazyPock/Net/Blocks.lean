import LazyPock.Net.Client

/-!
# Blocks of addresses that are not public

`is_public_ip` of `crates/core/src/net.rs` tests octets, segments and masks. It comes down to a list of
blocks: an address is public where it lies in none of them, in the sense of `TrustedNet::contains`. An
address that embeds one of the other family is judged by the address that it embeds.

## Main definitions

* `Net.documentedBlocks`: the blocks.
* `Net.judged`: the address that is judged.
* `Net.checkedMask`: the mask for a length, where no shift overflows.

## Main results

* `Net.isPublicV4_iff`, `Net.isPublicV6_iff`: which numbers are public.
* `Net.TrustedNet.contains_iff_bits`: an entry covers the addresses with its first bits.
* `Net.isPublicIp_iff_blocks`.
-/

namespace LazyPock.Net

/-! ### Blocks -/

/-- A block of IPv4 addresses. -/
def net4 (a b c length : ℕ) (h : length ≤ 32 := by decide) : TrustedNet :=
  ⟨.v4 (embedded (a * 256 + b) (c * 256)), length, h⟩

/-- A block of IPv6 addresses. -/
def net6 (first second third length : ℕ) (h : length ≤ 128 := by decide) : TrustedNet :=
  ⟨.v6 (BitVec.ofNat 128 (((first * 65536 + second) * 65536 + third) * 2 ^ 80)), length, h⟩

def blocks4 : List TrustedNet :=
  [net4 0 0 0 8, net4 10 0 0 8, net4 100 64 0 10, net4 127 0 0 8, net4 169 254 0 16, net4 172 16 0 12,
    net4 192 0 0 24, net4 192 0 2 24, net4 192 88 99 24, net4 192 168 0 16, net4 198 18 0 15,
    net4 198 51 100 24, net4 203 0 113 24, net4 224 0 0 4, net4 240 0 0 4]

def blocks6 : List TrustedNet :=
  [net6 0 0 0 96, net6 0x64 0xff9b 1 48, net6 0x100 0 0 64, net6 0x2001 0 0 32, net6 0x2001 0xdb8 0 32,
    net6 0xfc00 0 0 7, net6 0xfe80 0 0 10, net6 0xfec0 0 0 10, net6 0xff00 0 0 8]

/-- The blocks of addresses that are not on the public internet. -/
def documentedBlocks : List TrustedNet := blocks4 ++ blocks6

/-- `::ffff:0:0/96` -/
def mappedBlock : TrustedNet := ⟨.v6 (BitVec.ofNat 128 (0xffff * 2 ^ 32)), 96, by decide⟩

/-- `64:ff9b::/96` -/
def nat64Block : TrustedNet := net6 0x64 0xff9b 0 96

/-- `2002::/16` -/
def sixToFourBlock : TrustedNet := net6 0x2002 0 0 16

/-- The address that is judged: the one that is embedded, where there is one. -/
def judged : IpAddr → IpAddr
  | .v4 address => .v4 address
  | .v6 address =>
    if mappedBlock.contains (.v6 address) || nat64Block.contains (.v6 address) then
      .v4 (address.extractLsb' 0 32)
    else if sixToFourBlock.contains (.v6 address) then .v4 (address.extractLsb' 80 32)
    else .v6 address

/-! ### Membership as division -/

theorem ushiftRight_eq_iff {a b : BitVec 128} {k : ℕ} :
    a >>> k = b >>> k ↔ a.toNat / 2 ^ k = b.toNat / 2 ^ k := by
  rw [← BitVec.toNat_inj, BitVec.toNat_ushiftRight, BitVec.toNat_ushiftRight, Nat.shiftRight_eq_div_pow,
    Nat.shiftRight_eq_div_pow]

theorem toNat_mapped (address : BitVec 32) : (mapped address).toNat = 0xffff * 2 ^ 32 + address.toNat := by
  have := address.isLt
  rw [mapped, BitVec.toNat_ofNat]
  omega

/-- An IPv6 block covers the addresses with its quotient. -/
theorem contains_v6 {base address : BitVec 128} {length : ℕ} (h : length ≤ (IpAddr.v6 base).bits) :
    TrustedNet.contains ⟨.v6 base, length, h⟩ (.v6 address) = true ↔
      address.toNat / 2 ^ (128 - length) = base.toNat / 2 ^ (128 - length) := by
  rw [TrustedNet.contains_iff, ushiftRight_eq_iff]
  exact eq_comm

/-- An IPv4 block covers the addresses with its quotient. -/
theorem contains_v4 {base address : BitVec 32} {length : ℕ} (h : length ≤ (IpAddr.v4 base).bits) :
    TrustedNet.contains ⟨.v4 base, length, h⟩ (.v4 address) = true ↔
      address.toNat / 2 ^ (32 - length) = base.toNat / 2 ^ (32 - length) := by
  have hle : length ≤ 32 := h
  have hshift : 128 - (96 + length) = 32 - length := by omega
  have hpow : 2 ^ 32 = 2 ^ length * 2 ^ (32 - length) := by
    rw [← Nat.pow_add, Nat.add_sub_cancel' hle]
  have hquotient : ∀ n, (0xffff * 2 ^ 32 + n) / 2 ^ (32 - length) =
      0xffff * 2 ^ length + n / 2 ^ (32 - length) := by
    intro n
    rw [hpow, ← Nat.mul_assoc, Nat.add_comm, Nat.add_mul_div_right _ _ (Nat.two_pow_pos _), Nat.add_comm]
  rw [TrustedNet.contains_iff, ushiftRight_eq_iff]
  change (mapped base).toNat / 2 ^ (128 - (96 + length)) =
    (mapped address).toNat / 2 ^ (128 - (96 + length)) ↔ _
  rw [hshift, toNat_mapped, toNat_mapped, hquotient, hquotient, Nat.add_left_cancel_iff]
  exact eq_comm

/-- An IPv4 block covers mapped addresses only. -/
theorem mapped_of_contains {base : BitVec 32} {address : BitVec 128} {length : ℕ}
    (h : length ≤ (IpAddr.v4 base).bits)
    (hcontains : TrustedNet.contains ⟨.v4 base, length, h⟩ (.v6 address) = true) :
    address.toNat / 2 ^ 32 = 0xffff := by
  have hle : length ≤ 32 := h
  have hbase := base.isLt
  have hshift : 128 - (96 + length) = 32 - length := by omega
  rw [TrustedNet.contains_iff, ushiftRight_eq_iff] at hcontains
  change (mapped base).toNat / 2 ^ (128 - (96 + length)) = address.toNat / 2 ^ (128 - (96 + length))
    at hcontains
  have hdiv := congrArg (· / 2 ^ length) hcontains
  simp only [hshift, Nat.div_div_eq_div_mul, ← Nat.pow_add, Nat.sub_add_cancel hle, toNat_mapped] at hdiv
  omega

/-! ### IPv4 -/

theorem contains_net4 {a b c length : ℕ} (h : length ≤ 32) (address : BitVec 32) :
    (net4 a b c length h).contains (.v4 address) = true ↔
      address.toNat / 2 ^ (32 - length) = ((a * 256 + b) * 65536 + c * 256) % 2 ^ 32 / 2 ^ (32 - length) := by
  have hbase : (embedded (a * 256 + b) (c * 256)).toNat =
      ((a * 256 + b) * 65536 + c * 256) % 2 ^ 32 := BitVec.toNat_ofNat _ _
  rw [← hbase]
  exact contains_v4 h

/-- **The public IPv4 addresses** as numbers: the tests of the octets are quotients. -/
theorem isPublicV4_eq_false (address : BitVec 32) :
    isPublicV4 address = false ↔
      address.toNat / 2 ^ 24 = 0 ∨ address.toNat / 2 ^ 24 = 10 ∨ address.toNat / 2 ^ 22 = 401 ∨
      address.toNat / 2 ^ 24 = 127 ∨ address.toNat / 2 ^ 16 = 43518 ∨ address.toNat / 2 ^ 20 = 2753 ∨
      address.toNat / 2 ^ 8 = 12582912 ∨ address.toNat / 2 ^ 8 = 12582914 ∨
      address.toNat / 2 ^ 8 = 12605539 ∨ address.toNat / 2 ^ 16 = 49320 ∨ address.toNat / 2 ^ 17 = 25353 ∨
      address.toNat / 2 ^ 8 = 12989284 ∨ address.toNat / 2 ^ 8 = 13303921 ∨
      address.toNat / 2 ^ 28 = 14 ∨ address.toNat / 2 ^ 28 = 15 := by
  have hlt := address.isLt
  have hfirst : octet address 0 = address.toNat / 2 ^ 24 := by
    rw [octet]
    omega
  have hsecond : octet address 1 = address.toNat / 2 ^ 16 % 256 := rfl
  have hthird : octet address 2 = address.toNat / 2 ^ 8 % 256 := rfl
  have hbroadcast : address = BitVec.ofNat 32 (2 ^ 32 - 1) → address.toNat / 2 ^ 28 = 15 := by
    rintro rfl
    rfl
  have hunspecified : address = BitVec.ofNat 32 0 → address.toNat / 2 ^ 24 = 0 := by
    rintro rfl
    rfl
  simp only [isPublicV4, Bool.not_eq_false', Bool.or_eq_true, Bool.and_eq_true, decide_eq_true_eq, hfirst,
    hsecond, hthird]
  generalize address.toNat = n at *
  have hprivate : (n / 2 ^ 24 = 172 ∧ 16 ≤ n / 2 ^ 16 % 256) ∧ n / 2 ^ 16 % 256 ≤ 31 ↔
      n / 2 ^ 20 = 2753 := by omega
  have hprivate' : n / 2 ^ 24 = 192 ∧ n / 2 ^ 16 % 256 = 168 ↔ n / 2 ^ 16 = 49320 := by omega
  have hlocal : n / 2 ^ 24 = 169 ∧ n / 2 ^ 16 % 256 = 254 ↔ n / 2 ^ 16 = 43518 := by omega
  have htest : (n / 2 ^ 24 = 192 ∧ n / 2 ^ 16 % 256 = 0) ∧ n / 2 ^ 8 % 256 = 2 ↔
      n / 2 ^ 8 = 12582914 := by omega
  have htest' : (n / 2 ^ 24 = 198 ∧ n / 2 ^ 16 % 256 = 51) ∧ n / 2 ^ 8 % 256 = 100 ↔
      n / 2 ^ 8 = 12989284 := by omega
  have htest'' : (n / 2 ^ 24 = 203 ∧ n / 2 ^ 16 % 256 = 0) ∧ n / 2 ^ 8 % 256 = 113 ↔
      n / 2 ^ 8 = 13303921 := by omega
  have hmulticast : 224 ≤ n / 2 ^ 24 ∧ n / 2 ^ 24 ≤ 239 ↔ n / 2 ^ 28 = 14 := by omega
  have hcarrier : (n / 2 ^ 24 = 100 ∧ 64 ≤ n / 2 ^ 16 % 256) ∧ n / 2 ^ 16 % 256 ≤ 127 ↔
      n / 2 ^ 22 = 401 := by omega
  have hprotocol : (n / 2 ^ 24 = 192 ∧ n / 2 ^ 16 % 256 = 0) ∧ n / 2 ^ 8 % 256 = 0 ↔
      n / 2 ^ 8 = 12582912 := by omega
  have hrelay : (n / 2 ^ 24 = 192 ∧ n / 2 ^ 16 % 256 = 88) ∧ n / 2 ^ 8 % 256 = 99 ↔
      n / 2 ^ 8 = 12605539 := by omega
  have hbench : n / 2 ^ 24 = 198 ∧ (n / 2 ^ 16 % 256 = 18 ∨ n / 2 ^ 16 % 256 = 19) ↔
      n / 2 ^ 17 = 25353 := by omega
  have hreserved : 240 ≤ n / 2 ^ 24 ↔ n / 2 ^ 28 = 15 := by omega
  rw [hprivate, hprivate', hlocal, htest, htest', htest'', hmulticast, hcarrier, hprotocol, hrelay, hbench,
    hreserved]
  grind

/-- **The IPv4 blocks**: an address is public where it lies in none of them. -/
theorem isPublicV4_iff (address : BitVec 32) :
    isPublicV4 address = true ↔ ∀ block ∈ blocks4, block.contains (.v4 address) = false := by
  have hblocks : isPublicV4 address = false ↔ ∃ block ∈ blocks4, block.contains (.v4 address) = true := by
    rw [isPublicV4_eq_false]
    simp [blocks4, contains_net4]
  rw [← Bool.not_eq_false, hblocks]
  push Not
  simp

/-! ### IPv6 -/

theorem contains_net6 {first second third length : ℕ} (h : length ≤ 128) (address : BitVec 128) :
    (net6 first second third length h).contains (.v6 address) = true ↔
      address.toNat / 2 ^ (128 - length) =
        ((first * 65536 + second) * 65536 + third) * 2 ^ 80 % 2 ^ 128 / 2 ^ (128 - length) := by
  have hbase : (BitVec.ofNat 128 (((first * 65536 + second) * 65536 + third) * 2 ^ 80)).toNat =
      ((first * 65536 + second) * 65536 + third) * 2 ^ 80 % 2 ^ 128 := BitVec.toNat_ofNat _ _
  rw [← hbase]
  exact contains_v6 h

/-- A mask of some bits above others. -/
theorem and_mask {mask k j : ℕ} (h : mask = (2 ^ k - 1) * 2 ^ j) (x : ℕ) :
    x &&& mask = x / 2 ^ j % 2 ^ k * 2 ^ j := by
  subst h
  refine Nat.eq_of_testBit_eq fun i => ?_
  rw [Nat.testBit_and, Nat.testBit_mul_two_pow, Nat.testBit_mul_two_pow, Nat.testBit_two_pow_sub_one,
    Nat.testBit_mod_two_pow, Nat.testBit_div_two_pow]
  by_cases hle : j ≤ i
  · simp [hle, Bool.and_comm]
  · simp [hle]

theorem mul_two_pow_eq_iff {q k c value : ℕ} (h : value = c * 2 ^ k) : q * 2 ^ k = value ↔ q = c := by
  rw [h]
  exact Nat.mul_left_inj (Nat.two_pow_pos k).ne'

theorem segment_zero (address : BitVec 128) : segment address 0 = address.toNat / 2 ^ 112 := by
  have := address.isLt
  rw [segment]
  omega

/-- Segments that are zero are a remainder that is zero. -/
theorem zeros_iff (address : BitVec 128) {first count : ℕ} (h : first + count ≤ 8) :
    zeros address first (first + count) = true ↔
      address.toNat / 65536 ^ (8 - (first + count)) % 65536 ^ count = 0 := by
  induction count with
  | zero => simp [zeros, Nat.mod_one]
  | succ count ih =>
    have hexp : 8 - (first + count) = 7 - (first + count) + 1 := by omega
    have hexp' : 8 - (first + (count + 1)) = 7 - (first + count) := by omega
    have hrest := ih (by omega)
    rw [zeros, Nat.add_sub_cancel_left, List.all_eq_true] at hrest
    rw [hexp, Nat.pow_succ, ← Nat.div_div_eq_div_mul] at hrest
    rw [zeros, Nat.add_sub_cancel_left, List.range'_concat, List.all_append, Bool.and_eq_true,
      List.all_eq_true, hrest, hexp', Nat.pow_succ', Nat.mod_mul]
    simp only [List.all_cons, List.all_nil, Bool.and_true, decide_eq_true_eq, Nat.one_mul]
    rw [segment]
    omega

/-- Zeros in front are a small number. -/
theorem zeros_front (address : BitVec 128) {count : ℕ} (h : count ≤ 8) :
    zeros address 0 count = true ↔ address.toNat / 65536 ^ (8 - count) = 0 := by
  have hlt : address.toNat / 65536 ^ (8 - count) < 65536 ^ count := by
    rw [Nat.div_lt_iff_lt_mul (by positivity), ← Nat.pow_add, Nat.add_sub_cancel' h]
    exact address.isLt
  have hzeros := @zeros_iff address 0 count (by omega)
  rw [Nat.zero_add, Nat.mod_eq_of_lt hlt] at hzeros
  exact hzeros

section IPv6

variable (address : BitVec 128)

theorem contains_mappedBlock :
    mappedBlock.contains (.v6 address) = true ↔ address.toNat / 2 ^ 32 = 0xffff := by
  have hbase : (BitVec.ofNat 128 (0xffff * 2 ^ 32)).toNat / 2 ^ (128 - 96) = 0xffff := by decide
  rw [← hbase]
  exact contains_v6 _

/-- `to_ipv4_mapped` -/
theorem isMapped_iff : (zeros address 0 5 && decide (segment address 5 = 0xffff)) = true ↔
    mappedBlock.contains (.v6 address) = true := by
  have hzeros := @zeros_front address 5 (by omega)
  rw [Bool.and_eq_true, decide_eq_true_eq, hzeros, contains_mappedBlock, segment]
  omega

/-- The prefix that embeds an IPv4 address for a gateway. -/
theorem isNat64_iff :
    (decide (segment address 0 = 0x0064) && decide (segment address 1 = 0xff9b) && zeros address 2 6) = true ↔
      nat64Block.contains (.v6 address) = true := by
  have hzeros : zeros address 2 6 = true ↔ address.toNat / 65536 ^ 2 % 65536 ^ 4 = 0 :=
    @zeros_iff address 2 4 (by omega)
  have hsecond : segment address 1 = address.toNat / 65536 ^ 6 % 65536 := rfl
  rw [Bool.and_eq_true, Bool.and_eq_true, decide_eq_true_eq, decide_eq_true_eq, hzeros, segment_zero, hsecond,
    nat64Block, contains_net6]
  omega

theorem isSixToFour_iff : segment address 0 = 0x2002 ↔ sixToFourBlock.contains (.v6 address) = true := by
  rw [segment_zero, sixToFourBlock, contains_net6]
  omega

/-- The tests of an address that embeds none. -/
def isPlainPublic : Bool :=
  !(address = BitVec.ofNat 128 1 || address = BitVec.ofNat 128 0 || segment address 0 &&& 0xff00 = 0xff00
    || zeros address 0 6
    || segment address 0 &&& 0xfe00 = 0xfc00
    || segment address 0 &&& 0xffc0 = 0xfec0
    || segment address 0 &&& 0xffc0 = 0xfe80
    || (segment address 0 = 0x2001 && segment address 1 = 0x0db8)
    || (segment address 0 = 0x2001 && segment address 1 = 0x0000)
    || (segment address 0 = 0x0064 && segment address 1 = 0xff9b && segment address 2 = 0x0001)
    || (segment address 0 = 0x0100 && zeros address 1 4))

/-- **The tests of the segments** are quotients. -/
theorem isPlainPublic_eq_false :
    isPlainPublic address = false ↔
      address.toNat / 2 ^ 32 = 0 ∨ address.toNat / 2 ^ 80 = 433785077761 ∨
      address.toNat / 2 ^ 64 = 72057594037927936 ∨ address.toNat / 2 ^ 96 = 536936448 ∨
      address.toNat / 2 ^ 96 = 536939960 ∨ address.toNat / 2 ^ 121 = 126 ∨
      address.toNat / 2 ^ 118 = 1018 ∨ address.toNat / 2 ^ 118 = 1019 ∨ address.toNat / 2 ^ 120 = 255 := by
  have hlt := address.isLt
  have hone : address = BitVec.ofNat 128 1 → address.toNat / 2 ^ 32 = 0 := by
    rintro rfl
    rfl
  have hunspecified : address = BitVec.ofNat 128 0 → address.toNat / 2 ^ 32 = 0 := by
    rintro rfl
    rfl
  have hfront : zeros address 0 6 = true ↔ address.toNat / 2 ^ 32 = 0 := @zeros_front address 6 (by omega)
  have hmiddle : zeros address 1 4 = true ↔ address.toNat / 2 ^ 64 % 2 ^ 48 = 0 :=
    @zeros_iff address 1 3 (by omega)
  have hsecond : segment address 1 = address.toNat / 2 ^ 96 % 65536 := rfl
  have hthird : segment address 2 = address.toNat / 2 ^ 80 % 65536 := rfl
  have hmulticastMask (x : ℕ) : x &&& 0xff00 = x / 2 ^ 8 % 2 ^ 8 * 2 ^ 8 := and_mask (by decide) x
  have huniqueMask (x : ℕ) : x &&& 0xfe00 = x / 2 ^ 9 % 2 ^ 7 * 2 ^ 9 := and_mask (by decide) x
  have hlocalMask (x : ℕ) : x &&& 0xffc0 = x / 2 ^ 6 % 2 ^ 10 * 2 ^ 6 := and_mask (by decide) x
  simp only [isPlainPublic, Bool.not_eq_false', Bool.or_eq_true, Bool.and_eq_true, decide_eq_true_eq,
    hmulticastMask, huniqueMask, hlocalMask, hfront, hmiddle, segment_zero, hsecond, hthird]
  generalize address.toNat = n at *
  have hmulticast : n / 2 ^ 112 / 2 ^ 8 % 2 ^ 8 = n / 2 ^ 120 := by omega
  have hunique : n / 2 ^ 112 / 2 ^ 9 % 2 ^ 7 = n / 2 ^ 121 := by omega
  have hlocal : n / 2 ^ 112 / 2 ^ 6 % 2 ^ 10 = n / 2 ^ 118 := by omega
  have hmulticastTop : n / 2 ^ 120 * 2 ^ 8 = 0xff00 ↔ n / 2 ^ 120 = 255 := mul_two_pow_eq_iff (by decide)
  have huniqueTop : n / 2 ^ 121 * 2 ^ 9 = 0xfc00 ↔ n / 2 ^ 121 = 126 := mul_two_pow_eq_iff (by decide)
  have hsite : n / 2 ^ 118 * 2 ^ 6 = 0xfec0 ↔ n / 2 ^ 118 = 1019 := mul_two_pow_eq_iff (by decide)
  have hlink : n / 2 ^ 118 * 2 ^ 6 = 0xfe80 ↔ n / 2 ^ 118 = 1018 := mul_two_pow_eq_iff (by decide)
  have hdocs : n / 2 ^ 112 = 0x2001 ∧ n / 2 ^ 96 % 65536 = 0x0db8 ↔ n / 2 ^ 96 = 536939960 := by omega
  have hteredo : n / 2 ^ 112 = 0x2001 ∧ n / 2 ^ 96 % 65536 = 0x0000 ↔ n / 2 ^ 96 = 536936448 := by omega
  have hgateway : (n / 2 ^ 112 = 0x0064 ∧ n / 2 ^ 96 % 65536 = 0xff9b) ∧ n / 2 ^ 80 % 65536 = 0x0001 ↔
      n / 2 ^ 80 = 433785077761 := by omega
  have hdiscard : n / 2 ^ 112 = 0x0100 ∧ n / 2 ^ 64 % 2 ^ 48 = 0 ↔
      n / 2 ^ 64 = 72057594037927936 := by omega
  rw [hmulticast, hunique, hlocal, hmulticastTop, huniqueTop, hsite, hlink, hdocs, hteredo, hgateway, hdiscard]
  grind

theorem isPlainPublic_iff :
    isPlainPublic address = true ↔ ∀ block ∈ blocks6, block.contains (.v6 address) = false := by
  have hblocks : isPlainPublic address = false ↔ ∃ block ∈ blocks6, block.contains (.v6 address) = true := by
    rw [isPlainPublic_eq_false]
    simp [blocks6, contains_net6]
  rw [← Bool.not_eq_false, hblocks]
  push Not
  simp

/-- The IPv4 address in the last segments. -/
theorem embedded_last : embedded (segment address 6) (segment address 7) = address.extractLsb' 0 32 := by
  have hhigh : segment address 6 = address.toNat / 2 ^ 16 % 65536 := rfl
  have hlow : segment address 7 = address.toNat % 65536 := by rw [segment, Nat.sub_self, Nat.pow_zero, Nat.div_one]
  rw [← BitVec.toNat_inj, embedded, BitVec.toNat_ofNat, BitVec.extractLsb'_toNat, Nat.shiftRight_zero, hhigh, hlow]
  omega

/-- The IPv4 address behind the first segment. -/
theorem embedded_first : embedded (segment address 1) (segment address 2) = address.extractLsb' 80 32 := by
  have hhigh : segment address 1 = address.toNat / 2 ^ 96 % 65536 := rfl
  have hlow : segment address 2 = address.toNat / 2 ^ 80 % 65536 := rfl
  rw [← BitVec.toNat_inj, embedded, BitVec.toNat_ofNat, BitVec.extractLsb'_toNat, Nat.shiftRight_eq_div_pow,
    hhigh, hlow]
  omega

/-- No IPv4 address lies in an IPv6 block. -/
theorem contains_blocks6_v4 (address : BitVec 32) :
    ∀ block ∈ blocks6, block.contains (.v4 address) = false := by
  have hlt := address.isLt
  have hplain : isPlainPublic (mapped address) = true := by
    rw [← Bool.not_eq_false, isPlainPublic_eq_false, toNat_mapped]
    omega
  exact (isPlainPublic_iff (mapped address)).mp hplain

/-- No IPv6 address lies in an IPv4 block, unless it is a mapped one. -/
theorem contains_blocks4_v6 (h : mappedBlock.contains (.v6 address) = false) :
    ∀ block ∈ blocks4, block.contains (.v6 address) = false := by
  rw [← Bool.not_eq_true, contains_mappedBlock] at h
  intro block hblock
  rw [← Bool.not_eq_true]
  intro hcontains
  simp only [blocks4, List.mem_cons, List.not_mem_nil, or_false] at hblock
  rcases hblock with rfl | rfl | rfl | rfl | rfl | rfl | rfl | rfl | rfl | rfl | rfl | rfl | rfl | rfl | rfl <;>
    exact h (mapped_of_contains _ hcontains)

end IPv6

/-! ### Prefixes -/

/-- `u128::shl`, where the amount is less than the width. -/
def checkedShl (value : BitVec 128) (amount : ℕ) : Option (BitVec 128) :=
  if amount < 128 then some (value <<< amount) else none

/-- The mask for a length, where neither the subtraction nor the shift overflows. -/
def checkedMask (length : ℕ) : Option (BitVec 128) :=
  if length = 0 then some (BitVec.ofNat 128 0)
  else if 128 < length then none
  else checkedShl (BitVec.allOnes 128) (128 - length)

/-- **No mask overflows.** -/
theorem checkedMask_lengthInV6 (net : TrustedNet) :
    net.lengthInV6 < 2 ^ 8 ∧ checkedMask net.lengthInV6 = some (v6Mask net.lengthInV6) := by
  have hle := net.lengthInV6_le
  refine ⟨by omega, ?_⟩
  rw [checkedMask, v6Mask]
  split_ifs with hzero hmany
  · rfl
  · omega
  · rw [checkedShl, if_pos (by omega)]

/-- **An entry covers the addresses with its first bits.** -/
theorem TrustedNet.contains_iff_bits (net : TrustedNet) (address : IpAddr) :
    net.contains address = true ↔
      ∀ i < net.lengthInV6, (asV6 net.base).getMsbD i = (asV6 address).getMsbD i := by
  have hle := net.lengthInV6_le
  rw [TrustedNet.contains_iff]
  constructor
  · intro h i hi
    have hbit := congrArg (fun v => v.getLsbD (net.lengthInV6 - 1 - i)) h
    simp only [BitVec.getLsbD_ushiftRight] at hbit
    have hindex : 128 - net.lengthInV6 + (net.lengthInV6 - 1 - i) = 128 - 1 - i := by omega
    rw [hindex] at hbit
    rw [BitVec.getMsbD, BitVec.getMsbD, hbit]
  · intro h
    refine BitVec.eq_of_getLsbD_eq fun i hi => ?_
    rw [BitVec.getLsbD_ushiftRight, BitVec.getLsbD_ushiftRight]
    by_cases hlt : i < net.lengthInV6
    · have hbit := h (net.lengthInV6 - 1 - i) (by omega)
      have hindex : 128 - 1 - (net.lengthInV6 - 1 - i) = 128 - net.lengthInV6 + i := by omega
      have hbound : net.lengthInV6 - 1 - i < 128 := by omega
      simpa [BitVec.getMsbD, hbound, hindex] using hbit
    · rw [BitVec.getLsbD_of_ge _ _ (by omega), BitVec.getLsbD_of_ge _ _ (by omega)]

/-! ### The blocks and the tests -/

/-- An address is public where the address that is judged lies in no block. -/
theorem isPublicIp_judged (address : IpAddr) :
    isPublicIp address = true ↔ ∀ block ∈ documentedBlocks, block.contains (judged address) = false := by
  have hv4 (address : BitVec 32) : isPublicV4 address = true ↔
      ∀ block ∈ documentedBlocks, block.contains (.v4 address) = false := by
    rw [documentedBlocks, List.forall_mem_append, isPublicV4_iff]
    exact (and_iff_left (contains_blocks6_v4 address)).symm
  cases address with
  | v4 address => exact hv4 address
  | v6 address =>
    have hplain : isPublicIp (.v6 address) =
        if mappedBlock.contains (.v6 address) then isPublicV4 (address.extractLsb' 0 32)
        else if nat64Block.contains (.v6 address) then isPublicV4 (address.extractLsb' 0 32)
        else if sixToFourBlock.contains (.v6 address) then isPublicV4 (address.extractLsb' 80 32)
        else isPlainPublic address := by
      simp only [isPublicIp, isPublicV6, embedded_last, embedded_first]
      simp only [isMapped_iff, isNat64_iff, isSixToFour_iff]
      rfl
    rw [hplain, judged]
    cases hmapped : mappedBlock.contains (.v6 address) with
    | true => exact hv4 _
    | false =>
      cases hnat64 : nat64Block.contains (.v6 address) with
      | true => exact hv4 _
      | false =>
        cases hsixToFour : sixToFourBlock.contains (.v6 address) with
        | true => exact hv4 _
        | false =>
          have hblocks := isPlainPublic_iff address
          have hnone := contains_blocks4_v6 address hmapped
          rw [documentedBlocks, List.forall_mem_append]
          exact hblocks.trans (and_iff_right hnone).symm

/-- **The public addresses are those outside the documented blocks**, and a block covers the addresses with
its first bits, without an overflow. -/
theorem isPublicIp_iff_blocks :
    (∀ address, isPublicIp address = true ↔
      ∀ block ∈ documentedBlocks, block.contains (judged address) = false) ∧
    ∀ net : TrustedNet, net.lengthInV6 < 2 ^ 8 ∧ checkedMask net.lengthInV6 = some (v6Mask net.lengthInV6) ∧
      ∀ address, net.contains address = true ↔
        ∀ i < net.lengthInV6, (asV6 net.base).getMsbD i = (asV6 address).getMsbD i :=
  ⟨isPublicIp_judged, fun net => ⟨(checkedMask_lengthInV6 net).1, (checkedMask_lengthInV6 net).2,
    net.contains_iff_bits⟩⟩

end LazyPock.Net
