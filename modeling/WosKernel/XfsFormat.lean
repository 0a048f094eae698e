import WosKernel.XfsBmapExtents
import WosKernel.ByteCodec
import WosKernel.Lib.BitFields

/-! # The on-disk extent record (`xfs_format.hpp`)

An extent record is 16 bytes on disk, two big-endian 64-bit words.  `Be64` keeps a word as
the bytes are stored (`raw`) and converts with `__builtin_bswap64`; `xfs_bmbt_rec_unpack`
reads the CPU-order words `l0` and `l1` as

* `l0[63]`: the unwritten flag,
* `l0[62:9]`: the 54-bit file offset,
* `l0[8:0] ++ l1[63:21]`: the 52-bit start block, its high 9 bits in `l0`,
* `l1[20:0]`: the 21-bit block count,

and `xfs_bmbt_rec_pack` writes the same fields back.  The decoded record keeps its fields as
numbers; the source's are `uint64_t`, so `pack` takes each modulo `2^64`.

Each word is a sum of its fields (`toNat_pack_l0`, `toNat_pack_l1`), and each field a
quotient and remainder of the words (`xfsBmbtRecUnpack_fields`), so both round trips are
arithmetic: a record whose fields fit their widths comes back from `pack` and `unpack`
(`xfs_bmbt_rec_round_trip`), and every 16 bytes come back, byte for byte, from `unpack` and
`pack`.
-/

namespace Wos.XfsBmap

open ByteCodec BitFields

/-- `__builtin_bswap64`: the eight bytes of `x` in the other order. -/
def bswap64 (x : UInt64) : UInt64 := UInt64.ofNat (decodeBE (encodeLE 8 x.toNat))

/-- `Be64`: a 64-bit value stored most significant byte first; `raw` is the word as stored. -/
structure Be64 where
  raw : UInt64
deriving DecidableEq, Repr

/-- `Be64::to_cpu`. -/
def Be64.toCpu (b : Be64) : UInt64 := bswap64 b.raw

/-- `Be64::from_cpu`. -/
def Be64.fromCpu (host : UInt64) : Be64 := ⟨bswap64 host⟩

/-- `XfsBmbtRec`: the two words of an on-disk extent record, as stored. -/
@[ext]
structure XfsBmbtRec where
  l0 : Be64
  l1 : Be64
deriving DecidableEq, Repr

/-- `xfs_bmbt_rec_unpack`. -/
def xfsBmbtRecUnpack (rec : XfsBmbtRec) : XfsBmbtIrec :=
  let l0 := rec.l0.toCpu
  let l1 := rec.l1.toCpu
  { unwritten := (l0 >>> 63) != 0
    startoff := ((l0 >>> 9) &&& 0x3FFFFFFFFFFFFF).toNat
    startblock := (((l0 &&& 0x1FF) <<< 43) ||| (l1 >>> 21)).toNat
    blockcount := (l1 &&& 0x1FFFFF).toNat }

/-- `xfs_bmbt_rec_pack`: the words start at 0 and each field is or-ed in. -/
def xfsBmbtRecPack (irec : XfsBmbtIrec) : XfsBmbtRec :=
  let l0 : UInt64 := (0 : UInt64) ||| ((if irec.unwritten then (1 : UInt64) else 0) <<< 63) |||
    ((UInt64.ofNat irec.startoff &&& 0x3FFFFFFFFFFFFF) <<< 9) |||
    ((UInt64.ofNat irec.startblock >>> 43) &&& 0x1FF)
  let l1 : UInt64 := (0 : UInt64) ||| ((UInt64.ofNat irec.startblock &&& 0x7FFFFFFFFFF) <<< 21) |||
    (UInt64.ofNat irec.blockcount &&& 0x1FFFFF)
  { l0 := Be64.fromCpu l0, l1 := Be64.fromCpu l1 }

/-! ## Byte order -/

theorem toNat_bswap64 (x : UInt64) : (bswap64 x).toNat = decodeBE (encodeLE 8 x.toNat) := by
  have hlt : decodeLE (encodeLE 8 x.toNat).reverse < 256 ^ 8 := by
    simpa using decodeLE_lt (encodeLE 8 x.toNat).reverse
  rw [bswap64, UInt64.toNat_ofNat', Nat.mod_eq_of_lt (by simpa [decodeBE] using hlt)]

/-- Swapping the bytes twice gives the word back. -/
@[simp] theorem bswap64_bswap64 (x : UInt64) : bswap64 (bswap64 x) = x := by
  apply UInt64.toNat_inj.mp
  have hx := UInt64.toNat_lt x
  have hbytes : encodeLE 8 (decodeBE (encodeLE 8 x.toNat)) = (encodeLE 8 x.toNat).reverse := by
    have h := encodeLE_decodeLE (encodeLE 8 x.toNat).reverse
    rwa [List.length_reverse, length_encodeLE] at h
  rw [toNat_bswap64, toNat_bswap64, hbytes, decodeBE, List.reverse_reverse, decodeLE_encodeLE,
    Nat.mod_eq_of_lt (by simpa using hx)]

@[simp] theorem Be64.toCpu_fromCpu (host : UInt64) : (Be64.fromCpu host).toCpu = host :=
  bswap64_bswap64 host

@[simp] theorem Be64.fromCpu_toCpu (b : Be64) : Be64.fromCpu b.toCpu = b := by
  rw [Be64.toCpu, Be64.fromCpu, bswap64_bswap64]

/-- A stored word is determined by its CPU-order value. -/
theorem Be64.eq_of_toCpu_eq {b c : Be64} (h : b.toCpu = c.toCpu) : b = c := by
  rw [← Be64.fromCpu_toCpu b, h, Be64.fromCpu_toCpu]

/-! ## The fields as arithmetic -/

/-- The fields `unpack` reads, as quotients and remainders of the CPU-order words. -/
theorem xfsBmbtRecUnpack_fields (rec : XfsBmbtRec) :
    let a := rec.l0.toCpu.toNat
    let b := rec.l1.toCpu.toNat
    (xfsBmbtRecUnpack rec).unwritten = decide (a / 2 ^ 63 ≠ 0) ∧
    (xfsBmbtRecUnpack rec).startoff = a / 2 ^ 9 % 2 ^ 54 ∧
    (xfsBmbtRecUnpack rec).startblock = a % 2 ^ 9 * 2 ^ 43 + b / 2 ^ 21 ∧
    (xfsBmbtRecUnpack rec).blockcount = b % 2 ^ 21 := by
  intro a b
  have ha : a < 2 ^ 64 := UInt64.toNat_lt _
  have hb : b < 2 ^ 64 := UInt64.toNat_lt _
  refine ⟨?_, ?_, ?_, ?_⟩
  · have h63 : (rec.l0.toCpu >>> 63).toNat = a / 2 ^ 63 := by
      rw [UInt64.toNat_shiftRight]
      simp [Nat.shiftRight_eq_div_pow, a]
    have hiff : rec.l0.toCpu >>> 63 = 0 ↔ a / 2 ^ 63 = 0 := by
      rw [← UInt64.toNat_inj, h63, UInt64.toNat_zero]
    simp only [xfsBmbtRecUnpack]
    rw [Bool.eq_iff_iff, bne_iff_ne, ne_eq, hiff, decide_eq_true_iff]
  · simp only [xfsBmbtRecUnpack, UInt64.toNat_and, UInt64.toNat_shiftRight, UInt64.reduceToNat,
      Nat.shiftRight_eq_div_pow, Nat.reduceMod]
    exact and_eq_mod _ (m := 18014398509481983) (w := 54) rfl
  · simp only [xfsBmbtRecUnpack, UInt64.toNat_or, UInt64.toNat_and, UInt64.toNat_shiftLeft,
      UInt64.toNat_shiftRight, UInt64.reduceToNat, Nat.shiftLeft_eq, Nat.shiftRight_eq_div_pow,
      Nat.reduceMod]
    rw [and_eq_mod _ (m := 511) (w := 9) rfl, or_eq_add_of_dvd (m := 43) (by omega) (by omega)]
    omega
  · simp only [xfsBmbtRecUnpack, UInt64.toNat_and, UInt64.reduceToNat]
    exact and_eq_mod _ (m := 2097151) (w := 21) rfl

/-- The first word `pack` writes: the flag, the file offset and the start block's high bits. -/
theorem toNat_pack_l0 (irec : XfsBmbtIrec) :
    (xfsBmbtRecPack irec).l0.toCpu.toNat =
      (if irec.unwritten then 1 else 0) * 2 ^ 63 + irec.startoff % 2 ^ 54 * 2 ^ 9 +
        irec.startblock % 2 ^ 64 / 2 ^ 43 % 2 ^ 9 := by
  have hflag : ((if irec.unwritten then (1 : UInt64) else 0) <<< 63).toNat =
      (if irec.unwritten then 1 else 0) * 2 ^ 63 := by
    cases irec.unwritten <;> rfl
  simp only [xfsBmbtRecPack, Be64.toCpu_fromCpu, UInt64.toNat_or, UInt64.toNat_zero, Nat.zero_or]
  rw [hflag]
  simp only [UInt64.toNat_and, UInt64.toNat_shiftLeft, UInt64.toNat_shiftRight, UInt64.toNat_ofNat',
    UInt64.reduceToNat, Nat.shiftLeft_eq, Nat.shiftRight_eq_div_pow, Nat.reduceMod]
  rw [and_eq_mod _ (m := 18014398509481983) (w := 54) rfl, and_eq_mod _ (m := 511) (w := 9) rfl,
    or_or_eq_add (s := 9) (t := 63) (by norm_num) (Dvd.intro_left _ rfl) ?_ ?_ ?_]
  -- the rest is arithmetic: the offset is below `2^54`, so its shift by 9 does not wrap
  all_goals omega

/-- The second word `pack` writes: the start block's low bits and the block count. -/
theorem toNat_pack_l1 (irec : XfsBmbtIrec) :
    (xfsBmbtRecPack irec).l1.toCpu.toNat =
      irec.startblock % 2 ^ 43 * 2 ^ 21 + irec.blockcount % 2 ^ 21 := by
  simp only [xfsBmbtRecPack, Be64.toCpu_fromCpu, UInt64.toNat_or, UInt64.toNat_and, UInt64.toNat_shiftLeft,
    UInt64.toNat_ofNat', UInt64.reduceToNat, Nat.shiftLeft_eq, Nat.reduceMod, Nat.zero_or]
  rw [and_eq_mod _ (m := 8796093022207) (w := 43) rfl, and_eq_mod _ (m := 2097151) (w := 21) rfl,
    or_eq_add_of_dvd (m := 21) (by omega) (by omega)]
  omega

/-! ## The round trips -/

/-- A record whose fields fit their widths comes back from `pack` and `unpack`. -/
theorem xfsBmbtRecUnpack_pack {irec : XfsBmbtIrec} (hoff : irec.startoff < 2 ^ 54)
    (hblock : irec.startblock < 2 ^ 52) (hcount : irec.blockcount < 2 ^ 21) :
    xfsBmbtRecUnpack (xfsBmbtRecPack irec) = irec := by
  obtain ⟨hu, hso, hsb, hbc⟩ := xfsBmbtRecUnpack_fields (xfsBmbtRecPack irec)
  rw [toNat_pack_l0] at hu hso hsb
  rw [toNat_pack_l1] at hsb hbc
  obtain ⟨off, block, count, unwritten⟩ := irec
  simp only at hoff hblock hcount hu hso hsb hbc
  rw [XfsBmbtIrec.mk.injEq, hu, hso, hsb, hbc]
  clear hu hso hsb hbc
  cases unwritten
  · simp only [Bool.false_eq_true, if_false, decide_eq_false_iff_not, not_not]
    refine ⟨?_, ?_, ?_, ?_⟩ <;> omega
  · simp only [if_true, decide_eq_true_iff]
    refine ⟨?_, ?_, ?_, ?_⟩ <;> omega

/-- Every on-disk record comes back, byte for byte, from `unpack` and `pack`. -/
theorem xfsBmbtRecPack_unpack (rec : XfsBmbtRec) : xfsBmbtRecPack (xfsBmbtRecUnpack rec) = rec := by
  obtain ⟨hu, hso, hsb, hbc⟩ := xfsBmbtRecUnpack_fields rec
  have ha := UInt64.toNat_lt rec.l0.toCpu
  have hb := UInt64.toNat_lt rec.l1.toCpu
  apply XfsBmbtRec.ext <;> apply Be64.eq_of_toCpu_eq <;> apply UInt64.toNat_inj.mp
  · rw [toNat_pack_l0, hu, hso, hsb]
    clear hu hso hsb hbc
    by_cases htop : rec.l0.toCpu.toNat / 2 ^ 63 = 0
    · rw [if_neg (by simpa using htop)]; omega
    · rw [if_pos (by simpa using htop)]; omega
  · rw [toNat_pack_l1, hsb, hbc]
    clear hu hso hsb hbc
    omega

/-- **The extent record codec round-trips**: a record whose file offset, start block and block
count fit their 54, 52 and 21 bits comes back from `pack` then `unpack`, and every on-disk
record comes back, byte for byte, from `unpack` then `pack`. -/
theorem xfs_bmbt_rec_round_trip :
    (∀ irec : XfsBmbtIrec, irec.startoff < 2 ^ 54 → irec.startblock < 2 ^ 52 →
      irec.blockcount < 2 ^ 21 → xfsBmbtRecUnpack (xfsBmbtRecPack irec) = irec) ∧
    ∀ rec : XfsBmbtRec, xfsBmbtRecPack (xfsBmbtRecUnpack rec) = rec :=
  ⟨fun _ hoff hblock hcount => xfsBmbtRecUnpack_pack hoff hblock hcount, xfsBmbtRecPack_unpack⟩

/-- An unwritten extent at the top of every field's range round-trips. -/
theorem xfs_bmbt_rec_round_trip_top :
    let irec : XfsBmbtIrec := ⟨2 ^ 54 - 1, 2 ^ 52 - 1, 2 ^ 21 - 1, true⟩
    irec.startoff < 2 ^ 54 ∧ irec.startblock < 2 ^ 52 ∧ irec.blockcount < 2 ^ 21 ∧
      xfsBmbtRecUnpack (xfsBmbtRecPack irec) = irec :=
  ⟨by decide, by decide, by decide, xfs_bmbt_rec_round_trip.1 _ (by decide) (by decide) (by decide)⟩

end Wos.XfsBmap
