import WosKernel.ByteCodec
import WosKernel.Lib.OnesComplement

/-! # Internet checksums (net/checksum.cpp)

`checksum_compute`, `checksum_pseudo_ipv4` and `checksum_pseudo_ipv6` add 16-bit words into
a 32-bit accumulator, fold the carries back in and complement.  The data is read as
little-endian words (`add_little_endian_words`), the byte order of the target, so the
result is the RFC 1071 checksum byte-swapped; since every caller stores the `uint16_t`
result into the packet in host order, the two bytes on the wire come out in network order.
This relies on every word of the pseudo-header being added in the same little-endian
reading of its network-order bytes.

The model keeps the code's 32-bit arithmetic (`UInt32`, wrapping) and relates it to the
library's one's-complement sums by one `toNat` lemma per operation.  The results:

* `checksumCompute_wire` and `checksumPseudoIpv4_wire`: for data of at most `65535` bytes the
  stored bytes are RFC 1071's checksum of the data, resp. of the RFC 768/793 pseudo-header
  followed by the data;
* `checksumPseudoIpv6_wire_swapped`: `checksum_pseudo_ipv6` adds the two addresses as
  big-endian words, so its stored bytes are the checksum of a pseudo-header whose address
  bytes are exchanged pairwise, and `checksumPseudoIpv6_loopback_ne` is an input where this
  differs from RFC 8200's pseudo-header checksum;
* `foldChecksum_addLittleEndianWords_stored`: recomputing over data that holds the stored
  result at a word boundary gives `0`, for all three functions alike (the repository's
  self-validating tests therefore pass for the IPv6 variant as well).
-/

namespace Wos.Net

open ByteCodec OnesComplement

/-! ## Byte order (net/endian.hpp, net/address.hpp) -/

/-- `__builtin_bswap16`: the two bytes of `x` in the other order. -/
def bswap16 (x : UInt16) : UInt16 := UInt16.ofNat (decodeBE (encodeLE 2 x.toNat))

/-- `__builtin_bswap32`: the four bytes of `x` in the other order. -/
def bswap32 (x : UInt32) : UInt32 := UInt32.ofNat (decodeBE (encodeLE 4 x.toNat))

/-- `htons` on the little-endian target. -/
def htons (host : UInt16) : UInt16 := bswap16 host

/-- `htonl` on the little-endian target. -/
def htonl (host : UInt32) : UInt32 := bswap32 host

/-- `IPv4Address`: the address as a number in host order. -/
structure IPv4Address where
  value : UInt32

/-- `IPv4Address::to_network_order`. -/
def IPv4Address.toNetworkOrder (a : IPv4Address) : UInt32 := bswap32 a.value

/-- `IPv6Address`: its sixteen bytes, in network order. -/
structure IPv6Address where
  bytes : List UInt8
  size_bytes : bytes.length = 16

/-- `IPv6Address::loopback`: `::1`. -/
def IPv6Address.loopback : IPv6Address := ⟨List.replicate 15 0 ++ [1], rfl⟩

/-- The address with the two bytes of each of its 16-bit groups exchanged. -/
def IPv6Address.swapBytePairs (a : IPv6Address) : IPv6Address :=
  ⟨swapPairs a.bytes, by rw [length_swapPairs, a.size_bytes]⟩

/-- The two bytes a `uint16_t` field holds in memory on the little-endian target: how every
caller stores a checksum into the packet. -/
def hostOrderBytes (v : UInt16) : List UInt8 := encodeLE 2 v.toNat

/-! ## The code -/

/-- The loop of `add_little_endian_words`: `word` holds the low byte of a pair while
`haveLowByte` is set. -/
def addLittleEndianWordsLoop (sum : UInt32) (word : UInt16) (haveLowByte : Bool) :
    List UInt8 → UInt32
  | [] => if haveLowByte then sum + word.toUInt32 else sum
  | byte :: bytes =>
    if !haveLowByte then addLittleEndianWordsLoop sum byte.toUInt16 true bytes
    -- `word | (uint16_t(BYTE) << 8)` is computed in `int` and added to the `uint32_t` sum
    else addLittleEndianWordsLoop (sum + (word.toUInt32 ||| (byte.toUInt32 <<< 8))) word false bytes

/-- `add_little_endian_words`. -/
def addLittleEndianWords (sum : UInt32) (bytes : List UInt8) : UInt32 :=
  addLittleEndianWordsLoop sum 0 false bytes

/-- The loop of `add_ipv6_address_words`, over the address bytes two at a time. -/
def addAddressWordsLoop (sum : UInt32) : List UInt8 → UInt32
  | b0 :: b1 :: bytes => addAddressWordsLoop (sum + ((b0.toUInt32 <<< 8) ||| b1.toUInt32)) bytes
  | _ => sum

/-- `add_ipv6_address_words`. -/
def addIpv6AddressWords (sum : UInt32) (addr : IPv6Address) : UInt32 :=
  addAddressWordsLoop sum addr.bytes

/-- The loop of `fold_checksum`, for at most `fuel` rounds.  On a 32-bit sum it stops
within two (`foldChecksumLoop_exits`), and more fuel changes nothing
(`foldChecksumLoop_of_two_le`). -/
def foldChecksumLoop : Nat → UInt32 → UInt32
  | 0, sum => sum
  | fuel + 1, sum =>
    if sum >>> 16 ≠ 0 then foldChecksumLoop fuel ((sum &&& (0xFFFF : UInt32)) + (sum >>> 16)) else sum

/-- `fold_checksum`. -/
def foldChecksum (sum : UInt32) : UInt16 := (~~~(foldChecksumLoop 2 sum)).toUInt16

/-- `checksum_compute`. -/
def checksumCompute (data : List UInt8) : UInt16 := foldChecksum (addLittleEndianWords 0 data)

/-- The pseudo-header part of `checksum_pseudo_ipv4`: the sum before the data is added. -/
def pseudoIpv4HeaderSum (src dst : IPv4Address) (proto : UInt8) (len : UInt16) : UInt32 :=
  let srcN := src.toNetworkOrder
  let dstN := dst.toNetworkOrder
  let mask : UInt32 := 0xFFFF
  let sum : UInt32 := 0
  sum + ((srcN >>> 16) &&& mask) + (srcN &&& mask) + ((dstN >>> 16) &&& mask) + (dstN &&& mask) +
    (htons proto.toUInt16).toUInt32 + (htons len).toUInt32

/-- `checksum_pseudo_ipv4`. -/
def checksumPseudoIpv4 (src dst : IPv4Address) (proto : UInt8) (len : UInt16)
    (data : List UInt8) : UInt16 :=
  foldChecksum (addLittleEndianWords (pseudoIpv4HeaderSum src dst proto len) data)

/-- The pseudo-header part of `checksum_pseudo_ipv6`. -/
def pseudoIpv6HeaderSum (src dst : IPv6Address) (nextHeader : UInt8) (payloadLen : UInt32) :
    UInt32 :=
  let sum := addIpv6AddressWords (addIpv6AddressWords 0 src) dst
  let lenN := htonl payloadLen
  let mask : UInt32 := 0xFFFF
  sum + ((lenN >>> 16) &&& mask) + (lenN &&& mask) + (htons nextHeader.toUInt16).toUInt32

/-- `checksum_pseudo_ipv6`. -/
def checksumPseudoIpv6 (src dst : IPv6Address) (nextHeader : UInt8) (payloadLen : UInt32)
    (data : List UInt8) : UInt16 :=
  foldChecksum (addLittleEndianWords (pseudoIpv6HeaderSum src dst nextHeader payloadLen) data)

/-! ## The pseudo-headers on the wire -/

/-- The RFC 768/793 pseudo-header: source, destination, a zero byte, the protocol and the
length, in network byte order. -/
def ipv4PseudoHeader (src dst : IPv4Address) (proto : UInt8) (len : UInt16) : List UInt8 :=
  encodeBE 4 src.value.toNat ++ encodeBE 4 dst.value.toNat ++ [0, proto] ++ encodeBE 2 len.toNat

/-- The RFC 8200 §8.1 pseudo-header: source, destination, the 32-bit payload length, three
zero bytes and the next header. -/
def ipv6PseudoHeader (src dst : IPv6Address) (nextHeader : UInt8) (payloadLen : UInt32) :
    List UInt8 :=
  src.bytes ++ dst.bytes ++ encodeBE 4 payloadLen.toNat ++ [0, 0, 0, nextHeader]

/-- The bytes of a string as numbers, for the library's word readings. -/
def byteValues (bs : List UInt8) : List Nat := bs.map UInt8.toNat

section Bytes

variable {bs bs' : List UInt8}

@[simp] theorem byteValues_append : byteValues (bs ++ bs') = byteValues bs ++ byteValues bs' :=
  List.map_append

theorem byteValues_swapPairs : byteValues (swapPairs bs) = swapPairs (byteValues bs) :=
  map_swapPairs _ _

@[simp] theorem length_byteValues : (byteValues bs).length = bs.length := List.length_map _

theorem byteValues_lt : ∀ b ∈ byteValues bs, b < 256 := by
  simp only [byteValues, List.mem_map, forall_exists_index, and_imp, forall_apply_eq_imp_iff₂]
  exact fun b _ => b.toNat_lt

end Bytes

/-! ## Machine words to numbers -/

section Words

variable {x y : UInt32}

theorem toNat_and_0xFFFF : (x &&& (0xFFFF : UInt32)).toNat = x.toNat % 65536 := by
  rw [UInt32.toNat_and]
  exact Nat.and_two_pow_sub_one_eq_mod x.toNat 16

theorem toNat_shiftRight_16 : (x >>> 16).toNat = x.toNat / 65536 := by
  simp [UInt32.toNat_shiftRight, Nat.shiftRight_eq_div_pow]

theorem shiftRight_16_eq_zero_iff : x >>> 16 = 0 ↔ x.toNat < 65536 := by
  rw [← UInt32.toNat_inj, toNat_shiftRight_16, UInt32.toNat_zero]
  omega

/-- A byte in the low half of a word and one shifted into its high half. -/
theorem toNat_or_shiftLeft_8 (hx : x.toNat < 256) (hy : y.toNat < 256) :
    (x ||| (y <<< 8)).toNat = x.toNat + y.toNat * 256 := by
  have h8 : (8 : UInt32).toNat % 32 = 8 := rfl
  rw [UInt32.toNat_or, UInt32.toNat_shiftLeft, h8,
    Nat.mod_eq_of_lt (by rw [Nat.shiftLeft_eq]; omega), Nat.or_comm,
    ← Nat.shiftLeft_add_eq_or_of_lt (by omega), Nat.shiftLeft_eq]
  omega

/-- A byte shifted into the high half of a word and one in its low half. -/
theorem toNat_shiftLeft_8_or (hx : x.toNat < 256) (hy : y.toNat < 256) :
    ((x <<< 8) ||| y).toNat = x.toNat * 256 + y.toNat := by
  have h8 : (8 : UInt32).toNat % 32 = 8 := rfl
  rw [UInt32.toNat_or, UInt32.toNat_shiftLeft, h8,
    Nat.mod_eq_of_lt (by rw [Nat.shiftLeft_eq]; omega),
    ← Nat.shiftLeft_add_eq_or_of_lt (by omega), Nat.shiftLeft_eq]

/-- The two 16-bit halves of a 32-bit number, from its four bytes. -/
theorem halves_of_bytes {p q r t : Nat} (hp : p < 256) (hq : q < 256) (hr : r < 256)
    (ht : t < 256) :
    (p + 256 * (q + 256 * (r + 256 * t))) / 65536 % 65536 +
        (p + 256 * (q + 256 * (r + 256 * t))) % 65536 = p + q * 256 + (r + t * 256) := by
  have e : p + 256 * (q + 256 * (r + 256 * t)) = (p + 256 * q) + 65536 * (r + 256 * t) := by ring
  rw [e, Nat.add_mul_div_left _ _ (by norm_num), Nat.div_eq_of_lt (by omega), Nat.zero_add,
    Nat.mod_eq_of_lt (by omega), Nat.add_mul_mod_self_left, Nat.mod_eq_of_lt (by omega)]
  ring

/-- One round of `fold_checksum` is the library's `carry`. -/
theorem toNat_fold_round : ((x &&& (0xFFFF : UInt32)) + (x >>> 16)).toNat = carry x.toNat := by
  have hx := x.toNat_lt
  rw [UInt32.toNat_add, toNat_and_0xFFFF, toNat_shiftRight_16, carry]
  omega

end Words

/-! ## Byte order -/

theorem toNat_bswap32 (x : UInt32) : (bswap32 x).toNat = decodeBE (encodeLE 4 x.toNat) := by
  have hlt := decodeLE_lt (encodeLE 4 x.toNat).reverse
  rw [List.length_reverse, length_encodeLE] at hlt
  rw [bswap32, UInt32.toNat_ofNat', Nat.mod_eq_of_lt (by simpa [decodeBE] using hlt)]

/-- The halves of a byte-swapped 32-bit word, added, are the little-endian words of its
network-order bytes. -/
theorem bswap32_words (x : UInt32) :
    (bswap32 x).toNat / 65536 % 65536 + (bswap32 x).toNat % 65536 =
      (littleEndianWords (byteValues (encodeBE 4 x.toNat))).sum := by
  simp only [toNat_bswap32, decodeBE, encodeLE, encodeBE, List.reverse_cons, List.reverse_nil,
    List.nil_append, List.cons_append, decodeLE, byteValues, List.map_cons, List.map_nil,
    UInt8.toNat_ofNat', littleEndianWords_cons_cons, littleEndianWords, List.sum_cons,
    List.sum_nil, Nat.mul_zero, Nat.add_zero]
  exact halves_of_bytes (by omega) (by omega) (by omega) (by omega)

theorem htons_toNat (x : UInt16) : (htons x).toNat = swap x.toNat := by
  have hx := x.toNat_lt
  have hhi : x.toNat / 256 % 2 ^ 8 = x.toNat / 256 := Nat.mod_eq_of_lt (by omega)
  simp only [htons, bswap16, decodeBE, encodeLE, List.reverse_cons, List.reverse_nil,
    List.nil_append, List.cons_append, decodeLE, UInt8.toNat_ofNat', UInt16.toNat_ofNat', hhi,
    Nat.mul_zero, Nat.add_zero, swap]
  rw [Nat.mod_eq_of_lt (by omega)]
  omega

/-- A word stored in host order is read back by the little-endian reading. -/
theorem littleEndianWords_hostOrderBytes (v : UInt16) :
    littleEndianWords (byteValues (hostOrderBytes v)) = [v.toNat] := by
  have hv := v.toNat_lt
  simp only [hostOrderBytes, encodeLE, byteValues, List.map_cons, List.map_nil,
    UInt8.toNat_ofNat', littleEndianWords_cons_cons, littleEndianWords, List.cons.injEq, and_true]
  omega

/-- On the wire, a word stored in host order is the byte-swapped word in network order. -/
theorem encodeBE_two_swap {c : Nat} (h : c < 65536) : encodeBE 2 (swap c) = encodeLE 2 c := by
  simp only [encodeBE, encodeLE, List.reverse_cons, List.reverse_nil, List.nil_append,
    List.cons_append, List.cons.injEq, and_true]
  constructor <;> apply UInt8.toNat_inj.mp <;> simp only [UInt8.toNat_ofNat']
  · rw [swap_div h, Nat.mod_mod]
  · rw [← Nat.mod_mod (swap c), swap_mod_256 h]

/-! ## The word sums -/

/-- `add_little_endian_words` adds the little-endian words of the bytes, modulo `2 ^ 32`; the
pending low byte, while there is one, is the first byte of the rest. -/
theorem addLittleEndianWordsLoop_toNat (bs : List UInt8) : ∀ (sum : UInt32) (word : UInt16),
    (addLittleEndianWordsLoop sum word false bs).toNat =
        (sum.toNat + (littleEndianWords (byteValues bs)).sum) % 2 ^ 32 ∧
      (word.toNat < 256 → (addLittleEndianWordsLoop sum word true bs).toNat =
        (sum.toNat + (littleEndianWords (word.toNat :: byteValues bs)).sum) % 2 ^ 32) := by
  induction bs with
  | nil =>
    intro sum word
    refine ⟨by simp [addLittleEndianWordsLoop, byteValues, littleEndianWords, Nat.mod_eq_of_lt sum.toNat_lt], ?_⟩
    intro _
    simp [addLittleEndianWordsLoop, byteValues, littleEndianWords, UInt32.toNat_add]
  | cons b bs ih =>
    intro sum word
    constructor
    · simpa [addLittleEndianWordsLoop, byteValues] using (ih sum b.toUInt16).2 (by simp [b.toNat_lt])
    · intro hword
      have hpair : (word.toUInt32 ||| (b.toUInt32 <<< 8)).toNat = word.toNat + b.toNat * 256 := by
        simpa using @toNat_or_shiftLeft_8 word.toUInt32 b.toUInt32 (by simpa using hword)
          (by simpa using b.toNat_lt)
      rw [show addLittleEndianWordsLoop sum word true (b :: bs) =
          addLittleEndianWordsLoop (sum + (word.toUInt32 ||| (b.toUInt32 <<< 8))) word false bs
          from rfl, (ih _ word).1, UInt32.toNat_add, hpair]
      simp only [byteValues, List.map_cons, littleEndianWords_cons_cons, List.sum_cons]
      omega

theorem addLittleEndianWords_toNat (sum : UInt32) (bs : List UInt8) :
    (addLittleEndianWords sum bs).toNat =
      (sum.toNat + (littleEndianWords (byteValues bs)).sum) % 2 ^ 32 :=
  (addLittleEndianWordsLoop_toNat bs sum 0).1

/-- `add_ipv6_address_words` adds the big-endian words of an even run of bytes. -/
theorem addAddressWordsLoop_toNat : ∀ (sum : UInt32) {bs : List UInt8}, bs.length % 2 = 0 →
    (addAddressWordsLoop sum bs).toNat = (sum.toNat + (bigEndianWords (byteValues bs)).sum) % 2 ^ 32
  | sum, [], _ => by simp [addAddressWordsLoop, byteValues, bigEndianWords, Nat.mod_eq_of_lt sum.toNat_lt]
  | _, [_], h => by simp at h
  | sum, b0 :: b1 :: bs, h => by
    simp only [List.length_cons] at h
    have hword : ((b0.toUInt32 <<< 8) ||| b1.toUInt32).toNat = b0.toNat * 256 + b1.toNat := by
      simpa using @toNat_shiftLeft_8_or b0.toUInt32 b1.toUInt32 (by simpa using b0.toNat_lt)
        (by simpa using b1.toNat_lt)
    rw [show addAddressWordsLoop sum (b0 :: b1 :: bs) =
        addAddressWordsLoop (sum + ((b0.toUInt32 <<< 8) ||| b1.toUInt32)) bs from rfl,
      addAddressWordsLoop_toNat _ (show bs.length % 2 = 0 by omega), UInt32.toNat_add, hword]
    simp only [byteValues, List.map_cons, bigEndianWords, List.sum_cons]
    omega

/-! ## Folding -/

section Fold

variable {s : UInt32}

theorem foldChecksumLoop_succ_of_lt (h : s.toNat < 65536) (fuel : Nat) :
    foldChecksumLoop (fuel + 1) s = s := by
  rw [foldChecksumLoop, if_neg (not_not.mpr (shiftRight_16_eq_zero_iff.mpr h))]

theorem foldChecksumLoop_succ_of_le (h : 65536 ≤ s.toNat) (fuel : Nat) :
    foldChecksumLoop (fuel + 1) s =
      foldChecksumLoop fuel ((s &&& (0xFFFF : UInt32)) + (s >>> 16)) := by
  rw [foldChecksumLoop, if_pos (fun h0 => by have := shiftRight_16_eq_zero_iff.mp h0; omega)]

/-- No round of the loop changes the representative of the sum. -/
theorem canon_foldChecksumLoop : ∀ (fuel : Nat) (s : UInt32),
    canon (foldChecksumLoop fuel s).toNat = canon s.toNat
  | 0, _ => rfl
  | fuel + 1, s => by
    by_cases h : s.toNat < 65536
    · rw [foldChecksumLoop_succ_of_lt h]
    · rw [foldChecksumLoop_succ_of_le (by omega), canon_foldChecksumLoop fuel, toNat_fold_round,
        canon_carry]

/-- The loop of `fold_checksum` ends within two rounds. -/
theorem foldChecksumLoop_exits (s : UInt32) : (foldChecksumLoop 2 s).toNat < 65536 := by
  by_cases h1 : s.toNat < 65536
  · rwa [foldChecksumLoop_succ_of_lt h1]
  · rw [foldChecksumLoop_succ_of_le (by omega)]
    by_cases h2 : ((s &&& (0xFFFF : UInt32)) + (s >>> 16)).toNat < 65536
    · rwa [foldChecksumLoop_succ_of_lt h2]
    · rw [foldChecksumLoop_succ_of_le (by omega), foldChecksumLoop, toNat_fold_round,
        toNat_fold_round]
      exact carry_carry_lt s.toNat_lt

/-- Once the loop has ended, more rounds change nothing. -/
theorem foldChecksumLoop_add : ∀ (n k : Nat) (s : UInt32), (foldChecksumLoop n s).toNat < 65536 →
    foldChecksumLoop (n + k) s = foldChecksumLoop n s
  | 0, k, s, h => by
    rw [Nat.zero_add]
    cases k with
    | zero => rfl
    | succ k => exact foldChecksumLoop_succ_of_lt h k
  | n + 1, k, s, h => by
    by_cases hs : s.toNat < 65536
    · rw [Nat.add_right_comm, foldChecksumLoop_succ_of_lt hs, foldChecksumLoop_succ_of_lt hs]
    · rw [foldChecksumLoop_succ_of_le (by omega)] at h
      rw [Nat.add_right_comm, foldChecksumLoop_succ_of_le (by omega),
        foldChecksumLoop_succ_of_le (by omega), foldChecksumLoop_add n k _ h]

/-- Two rounds are the whole loop of `fold_checksum`. -/
theorem foldChecksumLoop_of_two_le {fuel : Nat} (h : 2 ≤ fuel) :
    foldChecksumLoop fuel s = foldChecksumLoop 2 s := by
  obtain ⟨k, rfl⟩ := Nat.exists_eq_add_of_le h
  exact foldChecksumLoop_add 2 k s (foldChecksumLoop_exits s)

/-- `fold_checksum` returns the complement of the sum's one's-complement representative. -/
theorem foldChecksum_toNat (s : UInt32) : (foldChecksum s).toNat = 65535 - canon s.toNat := by
  have hfold : (foldChecksumLoop 2 s).toNat = canon s.toNat := by
    rw [← canon_foldChecksumLoop 2 s, canon_of_lt (foldChecksumLoop_exits s)]
  rw [foldChecksum, UInt32.toUInt16_not, UInt16.toNat_not, UInt32.toNat_toUInt16,
    Nat.mod_eq_of_lt (foldChecksumLoop_exits s), hfold]
  rfl

end Fold

/-! ## The checksum on the wire -/

section Wire

variable {bs pre post : List UInt8} {s : UInt32}

theorem sum_littleEndianWords_byteValues_le {n : Nat} (h : bs.length ≤ n) :
    (littleEndianWords (byteValues bs)).sum ≤ 65535 * ((n + 1) / 2) := by
  have hle := sum_littleEndianWords_le (@byteValues_lt bs)
  rw [length_byteValues] at hle
  exact hle.trans (Nat.mul_le_mul_left _ (Nat.div_le_div_right (by omega)))

/-- A sum that is the natural sum of a string's little-endian words, folded and stored in
host order, puts RFC 1071's checksum of the string on the wire. -/
theorem hostOrderBytes_foldChecksum (hs : s.toNat = (littleEndianWords (byteValues bs)).sum) :
    hostOrderBytes (foldChecksum s) = encodeBE 2 (internetChecksum (byteValues bs)) := by
  have hlt : 65535 - canon s.toNat < 65536 := by omega
  rw [← swap_complement_canon_sum byteValues_lt, ← hs, encodeBE_two_swap hlt, hostOrderBytes,
    foldChecksum_toNat]

/-- The data words added to a sum that has room for them. -/
theorem addLittleEndianWords_toNat_of_lt
    (h : s.toNat + (littleEndianWords (byteValues bs)).sum < 2 ^ 32) :
    (addLittleEndianWords s bs).toNat = s.toNat + (littleEndianWords (byteValues bs)).sum := by
  rw [addLittleEndianWords_toNat, Nat.mod_eq_of_lt h]

/-- **Recomputing over the stored checksum gives zero.**  Whatever the sum `s` a caller
starts from, storing the folded result in host order over a zero word at an even offset and
folding again gives `0`. -/
theorem foldChecksum_addLittleEndianWords_stored (hpre : pre.length % 2 = 0)
    (hroom : s.toNat + 65535 * ((pre.length + post.length + 3) / 2) < 2 ^ 32) :
    foldChecksum (addLittleEndianWords s
      (pre ++ hostOrderBytes (foldChecksum (addLittleEndianWords s (pre ++ [0, 0] ++ post))) ++
        post)) = 0 := by
  have hwords : ∀ v : List UInt8, v.length = 2 →
      (littleEndianWords (byteValues (pre ++ v ++ post))).sum =
        (littleEndianWords (byteValues pre)).sum + (littleEndianWords (byteValues v)).sum +
          (littleEndianWords (byteValues post)).sum := by
    intro v hv
    rw [byteValues_append, byteValues_append, littleEndianWords_append (by simp [hv]; omega),
      littleEndianWords_append (by simpa using hpre), List.sum_append, List.sum_append]
  have hbound : ∀ v : List UInt8, v.length = 2 →
      s.toNat + (littleEndianWords (byteValues (pre ++ v ++ post))).sum < 2 ^ 32 := by
    intro v hv
    have : (littleEndianWords (byteValues (pre ++ v ++ post))).sum ≤
        65535 * (((pre ++ v ++ post).length + 1) / 2) := sum_littleEndianWords_byteValues_le le_rfl
    simp only [List.length_append, hv] at this
    have e : (pre.length + 2 + post.length + 1) / 2 = (pre.length + post.length + 3) / 2 := by omega
    omega
  set r := foldChecksum (addLittleEndianWords s (pre ++ [0, 0] ++ post)) with hr
  have hzero : (littleEndianWords (byteValues [0, 0])).sum = 0 := rfl
  have hstored : (littleEndianWords (byteValues (hostOrderBytes r))).sum = r.toNat := by
    rw [littleEndianWords_hostOrderBytes, List.sum_singleton]
  have hlen : (hostOrderBytes r).length = 2 := by simp [hostOrderBytes]
  have hrval : r.toNat = 65535 - canon (s.toNat + (littleEndianWords (byteValues pre)).sum +
      (littleEndianWords (byteValues post)).sum) := by
    rw [hr, foldChecksum_toNat, addLittleEndianWords_toNat_of_lt (hbound _ rfl), hwords _ rfl, hzero,
      Nat.add_zero, Nat.add_assoc]
  apply UInt16.toNat_inj.mp
  rw [foldChecksum_toNat, addLittleEndianWords_toNat_of_lt (hbound _ hlen), hwords _ hlen, hstored,
    hrval]
  set S := s.toNat + (littleEndianWords (byteValues pre)).sum +
    (littleEndianWords (byteValues post)).sum with hS
  have e : s.toNat + ((littleEndianWords (byteValues pre)).sum + (65535 - canon S) +
      (littleEndianWords (byteValues post)).sum) = S + (65535 - canon S) := by omega
  rw [e, canon_add_complement]
  rfl

/-- **The checksum after a pseudo-header.**  A sum that is the natural sum of the
little-endian words of an even-length header, continued over the data, folded and stored in
host order, puts RFC 1071's checksum of the header followed by the data on the wire. -/
theorem hostOrderBytes_foldChecksum_header {hdr data : List UInt8} (hhdr : hdr.length % 2 = 0)
    (hs : s.toNat = (littleEndianWords (byteValues hdr)).sum)
    (hroom : 65535 * ((hdr.length + data.length + 1) / 2) < 2 ^ 32) :
    hostOrderBytes (foldChecksum (addLittleEndianWords s data)) =
      encodeBE 2 (internetChecksum (byteValues (hdr ++ data))) := by
  have hwords : littleEndianWords (byteValues (hdr ++ data)) =
      littleEndianWords (byteValues hdr) ++ littleEndianWords (byteValues data) := by
    rw [byteValues_append, littleEndianWords_append (by simpa using hhdr)]
  have hle : (littleEndianWords (byteValues (hdr ++ data))).sum ≤
      65535 * (((hdr ++ data).length + 1) / 2) := sum_littleEndianWords_byteValues_le le_rfl
  rw [hwords, List.sum_append, List.length_append] at hle
  apply hostOrderBytes_foldChecksum
  rw [addLittleEndianWords_toNat_of_lt (by omega), hs, hwords, List.sum_append]

end Wire

/-! ## The three checksums -/

section Checksums

variable {data pre post : List UInt8}

/-- **`checksum_compute` puts RFC 1071's checksum of the data on the wire.** -/
theorem checksumCompute_wire (hd : data.length ≤ 65535) :
    hostOrderBytes (checksumCompute data) = encodeBE 2 (internetChecksum (byteValues data)) := by
  have h := @hostOrderBytes_foldChecksum_header 0 [] data rfl rfl (by simp; omega)
  rw [checksumCompute]
  simpa using h

/-- `checksum_compute`: recomputing over the stored checksum gives zero. -/
theorem checksumCompute_stored (hpre : pre.length % 2 = 0)
    (hlen : pre.length + 2 + post.length ≤ 65535) :
    checksumCompute (pre ++ hostOrderBytes (checksumCompute (pre ++ [0, 0] ++ post)) ++ post) = 0 :=
  foldChecksum_addLittleEndianWords_stored hpre (by simp; omega)

theorem littleEndianWords_encodeBE_two {v : Nat} (h : v < 65536) :
    littleEndianWords (byteValues (encodeBE 2 v)) = [swap v] := by
  simp only [encodeBE, encodeLE, List.reverse_cons, List.reverse_nil, List.nil_append,
    List.cons_append, byteValues, List.map_cons, List.map_nil, UInt8.toNat_ofNat',
    littleEndianWords_cons_cons, littleEndianWords, List.cons.injEq, and_true, swap]
  omega

/-- The IPv4 pseudo-header as the code adds it: the little-endian words of its
network-order bytes. -/
theorem pseudoIpv4HeaderSum_toNat (src dst : IPv4Address) (proto : UInt8) (len : UInt16) :
    (pseudoIpv4HeaderSum src dst proto len).toNat =
      (littleEndianWords (byteValues (ipv4PseudoHeader src dst proto len))).sum := by
  have hsrc := bswap32_words src.value
  have hdst := bswap32_words dst.value
  have hproto : (htons proto.toUInt16).toNat = proto.toNat * 256 := by
    rw [htons_toNat, UInt8.toNat_toUInt16, swap_byte proto.toNat_lt]
  have hlen : (littleEndianWords (byteValues (encodeBE 2 len.toNat))).sum = (htons len).toNat := by
    rw [littleEndianWords_encodeBE_two len.toNat_lt, List.sum_singleton, htons_toNat]
  have hbyte := proto.toNat_lt
  have hlen_lt := (htons len).toNat_lt
  simp only [pseudoIpv4HeaderSum, IPv4Address.toNetworkOrder, UInt32.toNat_add, toNat_and_0xFFFF,
    toNat_shiftRight_16, UInt16.toNat_toUInt32, UInt32.toNat_zero, hproto]
  rw [ipv4PseudoHeader, byteValues_append, byteValues_append, byteValues_append,
    littleEndianWords_append (by simp), littleEndianWords_append (by simp),
    littleEndianWords_append (by simp), List.sum_append, List.sum_append, List.sum_append, hlen,
    ← hsrc, ← hdst]
  simp only [byteValues, List.map_cons, List.map_nil, UInt8.toNat_zero, littleEndianWords_cons_cons,
    littleEndianWords, List.sum_cons, List.sum_nil]
  omega

/-- **`checksum_pseudo_ipv4` puts RFC 1071's checksum of the RFC 768/793 pseudo-header and
the data on the wire.** -/
theorem checksumPseudoIpv4_wire (src dst : IPv4Address) (proto : UInt8) (len : UInt16)
    (hd : data.length ≤ 65535) :
    hostOrderBytes (checksumPseudoIpv4 src dst proto len data) =
      encodeBE 2 (internetChecksum (byteValues (ipv4PseudoHeader src dst proto len ++ data))) := by
  have hhdr : (ipv4PseudoHeader src dst proto len).length = 12 := by simp [ipv4PseudoHeader]
  exact hostOrderBytes_foldChecksum_header (by rw [hhdr]) (pseudoIpv4HeaderSum_toNat ..)
    (by rw [hhdr]; omega)

/-- `checksum_pseudo_ipv4`: recomputing over the stored checksum gives zero. -/
theorem checksumPseudoIpv4_stored (src dst : IPv4Address) (proto : UInt8) (len : UInt16)
    (hpre : pre.length % 2 = 0) (hlen : pre.length + 2 + post.length ≤ 65535) :
    checksumPseudoIpv4 src dst proto len
      (pre ++ hostOrderBytes (checksumPseudoIpv4 src dst proto len (pre ++ [0, 0] ++ post)) ++
        post) = 0 := by
  have hhdr : (littleEndianWords (byteValues (ipv4PseudoHeader src dst proto len))).sum ≤
      65535 * ((12 + 1) / 2) :=
    sum_littleEndianWords_byteValues_le (by simp [ipv4PseudoHeader])
  have hsum := pseudoIpv4HeaderSum_toNat src dst proto len
  exact foldChecksum_addLittleEndianWords_stored hpre (by omega)

/-- `add_ipv6_address_words` adds the address's words in network order: the little-endian
words of the address with its byte pairs exchanged. -/
theorem addIpv6AddressWords_toNat (s : UInt32) (a : IPv6Address) :
    (addIpv6AddressWords s a).toNat =
      (s.toNat + (littleEndianWords (byteValues a.swapBytePairs.bytes)).sum) % 2 ^ 32 := by
  rw [addIpv6AddressWords, addAddressWordsLoop_toNat s (by rw [a.size_bytes]),
    IPv6Address.swapBytePairs, byteValues_swapPairs,
    littleEndianWords_swapPairs (by rw [length_byteValues, a.size_bytes])]

theorem sum_address_words_le (a : IPv6Address) :
    (littleEndianWords (byteValues a.bytes)).sum ≤ 65535 * 8 :=
  sum_littleEndianWords_byteValues_le (by rw [a.size_bytes])

/-- The IPv6 pseudo-header as the code adds it: the little-endian words of RFC 8200's
pseudo-header for the two addresses with their byte pairs exchanged. -/
theorem pseudoIpv6HeaderSum_toNat (src dst : IPv6Address) (nextHeader : UInt8)
    (payloadLen : UInt32) :
    (pseudoIpv6HeaderSum src dst nextHeader payloadLen).toNat =
      (littleEndianWords (byteValues
        (ipv6PseudoHeader src.swapBytePairs dst.swapBytePairs nextHeader payloadLen))).sum := by
  have hlen := bswap32_words payloadLen
  have hnext : (htons nextHeader.toUInt16).toNat = nextHeader.toNat * 256 := by
    rw [htons_toNat, UInt8.toNat_toUInt16, swap_byte nextHeader.toNat_lt]
  have hbyte := nextHeader.toNat_lt
  have hsrc := sum_address_words_le src.swapBytePairs
  have hdst := sum_address_words_le dst.swapBytePairs
  simp only [pseudoIpv6HeaderSum, htonl, UInt32.toNat_add, addIpv6AddressWords_toNat,
    toNat_and_0xFFFF, toNat_shiftRight_16, UInt16.toNat_toUInt32, UInt32.toNat_zero, hnext]
  rw [ipv6PseudoHeader, byteValues_append, byteValues_append, byteValues_append,
    littleEndianWords_append (by simp [src.swapBytePairs.size_bytes, dst.swapBytePairs.size_bytes]),
    littleEndianWords_append (by simp [src.swapBytePairs.size_bytes, dst.swapBytePairs.size_bytes]),
    littleEndianWords_append (by simp [src.swapBytePairs.size_bytes]), List.sum_append,
    List.sum_append, List.sum_append, ← hlen]
  simp only [byteValues, List.map_cons, List.map_nil, UInt8.toNat_zero, littleEndianWords_cons_cons,
    littleEndianWords, List.sum_cons, List.sum_nil]
  simp only [byteValues] at hsrc hdst
  omega

/-- **What `checksum_pseudo_ipv6` puts on the wire**: RFC 1071's checksum of the RFC 8200
pseudo-header and the data, but for the two addresses with the bytes of every 16-bit group
exchanged. -/
theorem checksumPseudoIpv6_wire_swapped (src dst : IPv6Address) (nextHeader : UInt8)
    (payloadLen : UInt32) (hd : data.length ≤ 65535) :
    hostOrderBytes (checksumPseudoIpv6 src dst nextHeader payloadLen data) =
      encodeBE 2 (internetChecksum (byteValues
        (ipv6PseudoHeader src.swapBytePairs dst.swapBytePairs nextHeader payloadLen ++ data))) := by
  have hhdr : (ipv6PseudoHeader src.swapBytePairs dst.swapBytePairs nextHeader payloadLen).length =
      40 := by
    simp [ipv6PseudoHeader, src.swapBytePairs.size_bytes, dst.swapBytePairs.size_bytes]
  exact hostOrderBytes_foldChecksum_header (by rw [hhdr]) (pseudoIpv6HeaderSum_toNat ..)
    (by rw [hhdr]; omega)

/-- `checksum_pseudo_ipv6`: recomputing over the stored checksum gives zero, so a test that
checks a packet against its own result cannot see the exchanged address bytes. -/
theorem checksumPseudoIpv6_stored (src dst : IPv6Address) (nextHeader : UInt8)
    (payloadLen : UInt32) (hpre : pre.length % 2 = 0)
    (hlen : pre.length + 2 + post.length ≤ 65535) :
    checksumPseudoIpv6 src dst nextHeader payloadLen
      (pre ++ hostOrderBytes (checksumPseudoIpv6 src dst nextHeader payloadLen
        (pre ++ [0, 0] ++ post)) ++ post) = 0 := by
  have hhdr : (littleEndianWords (byteValues
      (ipv6PseudoHeader src.swapBytePairs dst.swapBytePairs nextHeader payloadLen))).sum ≤
      65535 * ((40 + 1) / 2) :=
    sum_littleEndianWords_byteValues_le
      (by simp [ipv6PseudoHeader, src.swapBytePairs.size_bytes, dst.swapBytePairs.size_bytes])
  have hsum := pseudoIpv6HeaderSum_toNat src dst nextHeader payloadLen
  exact foldChecksum_addLittleEndianWords_stored hpre (by omega)

/-- `checksum_pseudo_ipv6` for `::1` to `::2`, next header 58 (ICMPv6), payload length 0
and no data: the code stores `FC C5`, while RFC 1071 over RFC 8200's pseudo-header gives
`FF C2`. -/
theorem checksumPseudoIpv6_loopback_ne :
    hostOrderBytes (checksumPseudoIpv6 IPv6Address.loopback ⟨List.replicate 15 0 ++ [2], rfl⟩
        58 0 []) = [0xFC, 0xC5] ∧
      encodeBE 2 (internetChecksum (byteValues
        (ipv6PseudoHeader IPv6Address.loopback ⟨List.replicate 15 0 ++ [2], rfl⟩ 58 0 ++ []))) =
        [0xFF, 0xC2] := by
  constructor <;> decide

end Checksums

end Wos.Net
