import WosKernel.Lib.Gf2Remainder

/-! # CRC32C (`util/crc32c.cpp`)

The kernel computes CRC32C three ways: a table of 256 words built at run time from the
reflected polynomial (`crc32cSw`), the SSE4.2 instruction eight bytes at a time with a byte tail
(`crc32cHw`), and, as the meaning of both, the bit-serial reflected CRC (`crc32cBitwise`).
The instruction is modelled by the pseudo-code of the Intel SDM for `CRC32 r64, r/m64` and
`CRC32 r32, r/m8`: bit reflection, and the `MOD2` remainder by `11EDC6F41H`.

* `crc32cSw_eq_bitwise`: a table step is eight bit steps, since a bit step is linear.
* `crc32cHw_eq_bitwise`: the register of the bitwise CRC is the reflected remainder of the
  message (`Gf2.crc_chunks`), which is what the SDM's `MOD2` computes.
* `crc32c_append` and `crc32cBlockWithCksum_eq`: streaming, and the XFS helper that feeds a zero
  word in place of the stored checksum.

A data pointer is a list of the `length` bytes it points at; which path runs is the cached
answer of `crc32c_has_hw`, a parameter.
-/

namespace Wos.Crc32c

open Gf2

/-! ## The software path -/

/-- `POLY` of `build_sw_table`: the Castagnoli polynomial, reflected. -/
def poly : UInt32 := 0x82F63B78

/-- One pass of the inner loop of `build_sw_table`. -/
def bitStep (crc : UInt32) : UInt32 :=
  if (crc &&& 1) != 0 then (crc >>> 1) ^^^ poly else crc >>> 1

/-- The bit-serial reflected CRC: each byte is added into the low end of the register, which
then takes eight steps. -/
def crc32cBitwise (crc : UInt32) (data : List UInt8) : UInt32 :=
  data.foldl (fun crc b => bitStep^[8] (crc ^^^ b.toUInt32)) crc

/-- `sw_table[i]` as `build_sw_table` fills it: eight steps from `crc = i`. -/
def swTable (i : UInt32) : UInt32 := bitStep^[8] i

/-- `crc32c_sw`. -/
def crc32cSw (crc : UInt32) (data : List UInt8) : UInt32 :=
  data.foldl (fun crc b => swTable ((crc ^^^ b.toUInt32) &&& 0xFF) ^^^ (crc >>> 8)) crc

/-! ## The hardware path -/

/-- The polynomial `11EDC6F41H` of the SDM's `CRC32`. -/
def castagnoli : Nat := 0x11EDC6F41

/-- `CRC32 r64, r/m64` (`__builtin_ia32_crc32di`) as the SDM defines it; the upper half of the
destination is cleared. -/
def crc32di (dest src : UInt64) : UInt64 :=
  let temp1 := bitReflect 64 src.toNat
  let temp2 := bitReflect 32 (dest.toNat % 2 ^ 32)
  let temp3 := temp1 <<< 32
  let temp4 := temp2 <<< 64
  let temp5 := temp3 ^^^ temp4
  let temp6 := mod2 32 castagnoli 96 temp5
  UInt64.ofNat (bitReflect 32 temp6)

/-- `CRC32 r32, r/m8` (`__builtin_ia32_crc32qi`) as the SDM defines it. -/
def crc32qi (dest : UInt32) (src : UInt8) : UInt32 :=
  let temp1 := bitReflect 8 src.toNat
  let temp2 := bitReflect 32 dest.toNat
  let temp3 := temp1 <<< 32
  let temp4 := temp2 <<< 8
  let temp5 := temp3 ^^^ temp4
  let temp6 := mod2 32 castagnoli 40 temp5
  UInt32.ofNat (bitReflect 32 temp6)

/-- The word `__builtin_memcpy` loads from eight bytes on x86-64: least significant byte
first. -/
def loadLe64 (bytes : List UInt8) : UInt64 :=
  bytes.foldr (fun b acc => b.toUInt64 ||| acc <<< 8) 0

/-- The first loop of `crc32c_hw`: one `CRC32 r64` for each eight bytes while eight remain;
returns the 64-bit accumulator and the tail. -/
def crc32cHwWords (crc64 : UInt64) : List UInt8 → UInt64 × List UInt8
  | b0 :: b1 :: b2 :: b3 :: b4 :: b5 :: b6 :: b7 :: rest =>
    crc32cHwWords (crc32di crc64 (loadLe64 [b0, b1, b2, b3, b4, b5, b6, b7])) rest
  | rest => (crc64, rest)

/-- `crc32c_hw`: the words, the accumulator truncated to 32 bits, then the tail a byte at a
time. -/
def crc32cHw (crc : UInt32) (data : List UInt8) : UInt32 :=
  let (crc64, rest) := crc32cHwWords crc.toUInt64 data
  rest.foldl crc32qi crc64.toUInt32

/-! ## The interface -/

/-- `crc32c`: an empty buffer leaves the seed; otherwise the instruction when `hasHw`
(`crc32c_has_hw`), the table when not. -/
def crc32c (hasHw : Bool) (crc : UInt32) (data : List UInt8) : UInt32 :=
  if data.length == 0 then crc
  else if hasHw then crc32cHw crc data else crc32cSw crc data

/-- `CRC32C_SEED`. -/
def crc32cSeed : UInt32 := ~~~0

/-- `crc32c_final`. -/
def crc32cFinal (crc : UInt32) : UInt32 := ~~~crc

/-- `crc32c_compute`. -/
def crc32cCompute (hasHw : Bool) (data : List UInt8) : UInt32 :=
  crc32cFinal (crc32c hasHw crc32cSeed data)

/-- `crc32c_block_with_cksum` over the `length` bytes of `buffer`: the bytes before the field,
a zero `uint32_t`, and the `length - AFTER_OFFSET` bytes after the field. -/
def crc32cBlockWithCksum (hasHw : Bool) (buffer : List UInt8) (cksumOffset : Nat) : UInt32 :=
  let crc := crc32c hasHw crc32cSeed (buffer.take cksumOffset)
  let crc := crc32c hasHw crc [0, 0, 0, 0]
  let afterOffset := cksumOffset + 4
  let crc := crc32c hasHw crc (buffer.drop afterOffset)
  crc32cFinal crc

/-! ## The bitwise register as a remainder -/

theorem castagnoli_testBit : castagnoli.testBit 32 = true := by decide

theorem castagnoli_lt : castagnoli < 2 ^ (32 + 1) := by decide

/-- The table's polynomial is the SDM's, reflected. -/
theorem poly_toNat : poly.toNat = bitReflect 32 (castagnoli % 2 ^ 32) := by decide +kernel

theorem low_bit_set (crc : UInt32) : ((crc &&& 1) != 0) = true ↔ crc.toNat % 2 = 1 := by
  rw [bne_iff_ne, ne_eq, ← UInt32.toNat_inj, UInt32.toNat_and, UInt32.toNat_one,
    Nat.and_one_is_mod, UInt32.toNat_zero]
  omega

theorem bitStep_toNat (crc : UInt32) : (bitStep crc).toNat = reflStep poly.toNat crc.toNat := by
  unfold bitStep reflStep
  have hshift : (crc >>> 1).toNat = crc.toNat / 2 := by
    rw [UInt32.toNat_shiftRight, Nat.shiftRight_eq_div_pow]
    rfl
  by_cases h : crc.toNat % 2 = 1
  · rw [if_pos ((low_bit_set crc).mpr h), if_pos h, UInt32.toNat_xor, hshift]
  · rw [if_neg (mt (low_bit_set crc).mp h), if_neg h, hshift]

theorem bitStep_iterate_toNat (n : Nat) (crc : UInt32) :
    (bitStep^[n] crc).toNat = (reflStep poly.toNat)^[n] crc.toNat := by
  induction n generalizing crc with
  | zero => rfl
  | succ n ih => rw [Function.iterate_succ_apply, Function.iterate_succ_apply, ih, bitStep_toNat]

@[simp] theorem crc32cBitwise_nil (crc : UInt32) : crc32cBitwise crc [] = crc := rfl

theorem crc32cBitwise_cons (crc : UInt32) (b : UInt8) (data : List UInt8) :
    crc32cBitwise crc (b :: data) = crc32cBitwise (bitStep^[8] (crc ^^^ b.toUInt32)) data := rfl

theorem crc32cBitwise_append (crc : UInt32) (a b : List UInt8) :
    crc32cBitwise crc (a ++ b) = crc32cBitwise (crc32cBitwise crc a) b :=
  List.foldl_append

theorem crc32cBitwise_toNat (crc : UInt32) (data : List UInt8) :
    (crc32cBitwise crc data).toNat =
      (data.map UInt8.toNat).foldl (fun r c => (reflStep poly.toNat)^[8] (r ^^^ c)) crc.toNat := by
  induction data generalizing crc with
  | nil => rfl
  | cons b data ih =>
    rw [crc32cBitwise_cons, ih, bitStep_iterate_toNat, UInt32.toNat_xor, UInt8.toNat_toUInt32]
    rfl

/-- **The bitwise register holds the reflected remainder of the message**, augmented by 32
zero bits, with the reflected start register above it. -/
theorem bitReflect_crc32cBitwise (crc : UInt32) (data : List UInt8) :
    bitReflect 32 (crc32cBitwise crc data).toNat =
      rem 32 castagnoli (bitReflect 32 crc.toNat * 2 ^ (8 * data.length) ^^^
        reflMsg 8 (data.map UInt8.toNat) * 2 ^ 32) := by
  have hbytes : ∀ c ∈ data.map UInt8.toNat, c < 2 ^ 8 := by
    intro c hc
    obtain ⟨b, -, rfl⟩ := List.mem_map.mp hc
    exact b.toNat_lt
  rw [crc32cBitwise_toNat, poly_toNat, ← List.length_map (f := UInt8.toNat)]
  exact crc_chunks castagnoli_testBit castagnoli_lt (by omega) hbytes crc.toNat_lt
    (rem_of_lt (bitReflect_lt 32 _)).symm

/-- Two registers are equal when their reflections are. -/
theorem eq_of_bitReflect_eq {a b : UInt32} (h : bitReflect 32 a.toNat = bitReflect 32 b.toNat) :
    a = b := by
  apply UInt32.toNat_inj.mp
  rw [← bitReflect_bitReflect a.toNat_lt, h, bitReflect_bitReflect b.toNat_lt]

/-! ## The table -/

/-- **A table step is eight bit steps**: eight steps of `crc ^ b` are those of its low byte,
read from the table, and the rest of `crc` moved down eight places. -/
theorem swTable_step (crc : UInt32) (b : UInt8) :
    swTable ((crc ^^^ b.toUInt32) &&& 0xFF) ^^^ (crc >>> 8) = bitStep^[8] (crc ^^^ b.toUInt32) := by
  apply UInt32.toNat_inj.mp
  have hmask : (0xFF : UInt32).toNat = 2 ^ 8 - 1 := rfl
  have hhigh : (crc.toNat ^^^ b.toNat) / 2 ^ 8 = crc.toNat / 2 ^ 8 := by
    rw [Nat.xor_div_two_pow, Nat.div_eq_of_lt b.toNat_lt, Nat.xor_zero]
  rw [UInt32.toNat_xor, swTable, bitStep_iterate_toNat, bitStep_iterate_toNat, UInt32.toNat_and,
    hmask, Nat.and_two_pow_sub_one_eq_mod, UInt32.toNat_shiftRight, UInt32.toNat_xor,
    UInt8.toNat_toUInt32, reflStep_iterate_split poly.toNat (crc.toNat ^^^ b.toNat) 8, hhigh,
    Nat.shiftRight_eq_div_pow]
  rfl

theorem crc32cSw_eq_bitwise (crc : UInt32) (data : List UInt8) :
    crc32cSw crc data = crc32cBitwise crc data := by
  induction data generalizing crc with
  | nil => rfl
  | cons b data ih =>
    rw [crc32cBitwise_cons, ← swTable_step, ← ih]
    rfl

/-! ## The instruction -/

/-- **`CRC32 r32, r/m8` is one byte of the bitwise CRC.** -/
theorem crc32qi_eq_bitwise (crc : UInt32) (b : UInt8) : crc32qi crc b = crc32cBitwise crc [b] := by
  have htemp : bitReflect 8 b.toNat <<< 32 ^^^ bitReflect 32 crc.toNat <<< 8 < 2 ^ 40 := by
    rw [Nat.shiftLeft_eq, Nat.shiftLeft_eq]
    exact Nat.xor_lt_two_pow (mul_two_pow_lt (bitReflect_lt 8 _) 32)
      (mul_two_pow_lt (bitReflect_lt 32 _) 8)
  have hmsg : reflMsg 8 [b.toNat] = bitReflect 8 b.toNat := by
    rw [reflMsg_cons]
    simp [reflMsg]
  apply eq_of_bitReflect_eq
  rw [bitReflect_crc32cBitwise, crc32qi,
    UInt32.toNat_ofNat_of_lt' (Nat.lt_of_lt_of_le (bitReflect_lt 32 _) (by decide)),
    bitReflect_bitReflect (mod2_lt castagnoli_testBit castagnoli_lt _ _), mod2_eq_rem htemp,
    List.map_cons, List.map_nil, hmsg, List.length_singleton, Nat.shiftLeft_eq, Nat.shiftLeft_eq,
    Nat.xor_comm]

theorem crc32qi_foldl (crc : UInt32) (data : List UInt8) :
    data.foldl crc32qi crc = crc32cBitwise crc data := by
  induction data generalizing crc with
  | nil => rw [List.foldl_nil, crc32cBitwise_nil]
  | cons b data ih =>
    rw [List.foldl_cons, ih, crc32qi_eq_bitwise, ← crc32cBitwise_append, List.singleton_append]

theorem loadLe64_toNat {bytes : List UInt8} (hlen : bytes.length ≤ 8) :
    (loadLe64 bytes).toNat = (bytes.map UInt8.toNat).foldr (fun c a => c + 2 ^ 8 * a) 0 := by
  induction bytes with
  | nil => rfl
  | cons b bytes ih =>
    have hlen' : bytes.length ≤ 7 := by simp at hlen; omega
    have hrest : (bytes.map UInt8.toNat).foldr (fun c a => c + 2 ^ 8 * a) 0 < 2 ^ 56 := by
      have := @foldr_chunks_lt 8 (bytes.map UInt8.toNat) (by
        intro c hc
        obtain ⟨b, -, rfl⟩ := List.mem_map.mp hc
        exact b.toNat_lt)
      rw [List.length_map] at this
      exact Nat.lt_of_lt_of_le this (Nat.pow_le_pow_right (by omega) (by omega))
    have hword : loadLe64 (b :: bytes) = b.toUInt64 ||| loadLe64 bytes <<< 8 := rfl
    rw [hword, UInt64.toNat_or, UInt64.toNat_shiftLeft, ih (by omega), UInt8.toNat_toUInt64,
      List.map_cons, List.foldr_cons]
    have hfit : (bytes.map UInt8.toNat).foldr (fun c a => c + 2 ^ 8 * a) 0 <<< 8 < 2 ^ 64 := by
      rw [Nat.shiftLeft_eq]
      exact Nat.lt_of_lt_of_le (mul_two_pow_lt hrest 8) (Nat.pow_le_pow_right (by omega) (by omega))
    rw [show (8 : UInt64).toNat % 64 = 8 from rfl, Nat.mod_eq_of_lt hfit, Nat.shiftLeft_eq,
      Nat.mul_comm, Nat.or_comm, ← Nat.two_pow_add_eq_or_of_lt b.toNat_lt, Nat.add_comm]

/-- The loaded word, reflected, is the message of its eight bytes. -/
theorem bitReflect_loadLe64 {bytes : List UInt8} (hlen : bytes.length = 8) :
    bitReflect 64 (loadLe64 bytes).toNat = reflMsg 8 (bytes.map UInt8.toNat) := by
  have hbytes : ∀ c ∈ bytes.map UInt8.toNat, c < 2 ^ 8 := by
    intro c hc
    obtain ⟨b, -, rfl⟩ := List.mem_map.mp hc
    exact b.toNat_lt
  have hwidth : 64 = 8 * (bytes.map UInt8.toNat).length := by rw [List.length_map, hlen]
  rw [loadLe64_toNat (by omega), hwidth, bitReflect_foldr hbytes]

/-- **`CRC32 r64, r/m64` is eight bytes of the bitwise CRC**, from a zero-extended register. -/
theorem crc32di_eq_bitwise (crc : UInt32) {bytes : List UInt8} (hlen : bytes.length = 8) :
    crc32di crc.toUInt64 (loadLe64 bytes) = (crc32cBitwise crc bytes).toUInt64 := by
  have htemp : bitReflect 64 (loadLe64 bytes).toNat <<< 32 ^^^ bitReflect 32 crc.toNat <<< 64 <
      2 ^ 96 := by
    rw [Nat.shiftLeft_eq, Nat.shiftLeft_eq]
    exact Nat.xor_lt_two_pow (mul_two_pow_lt (bitReflect_lt 64 _) 32)
      (mul_two_pow_lt (bitReflect_lt 32 _) 64)
  have hdest : crc.toUInt64.toNat % 2 ^ 32 = crc.toNat := by
    rw [UInt32.toNat_toUInt64, Nat.mod_eq_of_lt crc.toNat_lt]
  apply UInt64.toNat_inj.mp
  rw [UInt32.toNat_toUInt64, ← bitReflect_bitReflect (crc32cBitwise crc bytes).toNat_lt,
    bitReflect_crc32cBitwise, crc32di, hdest,
    UInt64.toNat_ofNat_of_lt' (Nat.lt_trans (bitReflect_lt 32 _) (by decide)),
    mod2_eq_rem htemp, bitReflect_loadLe64 hlen, hlen, Nat.shiftLeft_eq, Nat.shiftLeft_eq,
    Nat.xor_comm]

/-- The word loop followed by the byte tail computes the bitwise CRC, from any register that
the loop holds zero-extended. -/
theorem crc32cHwWords_foldl (crc64 : UInt64) (data : List UInt8) (crc : UInt32)
    (hcrc : crc64 = crc.toUInt64) :
    (crc32cHwWords crc64 data).2.foldl crc32qi (crc32cHwWords crc64 data).1.toUInt32 =
      crc32cBitwise crc data := by
  induction crc64, data using crc32cHwWords.induct generalizing crc with
  | case1 crc64 b0 b1 b2 b3 b4 b5 b6 b7 rest ih =>
    subst hcrc
    rw [crc32cHwWords, ih _ (crc32di_eq_bitwise crc rfl), ← crc32cBitwise_append]
    rfl
  | case2 crc64 rest hrest =>
    subst hcrc
    have hlow : crc.toUInt64.toUInt32 = crc := UInt32.toNat_inj.mp (by simp)
    rw [crc32cHwWords.eq_2 _ _ hrest, hlow, crc32qi_foldl]

theorem crc32cHw_eq_bitwise (crc : UInt32) (data : List UInt8) :
    crc32cHw crc data = crc32cBitwise crc data :=
  crc32cHwWords_foldl crc.toUInt64 data crc rfl

/-! ## The interface -/

theorem crc32c_eq_bitwise (hasHw : Bool) (crc : UInt32) (data : List UInt8) :
    crc32c hasHw crc data = crc32cBitwise crc data := by
  unfold crc32c
  split
  · rename_i hempty
    obtain rfl : data = [] := List.eq_nil_of_length_eq_zero (by simpa using hempty)
    rfl
  · cases hasHw
    · exact crc32cSw_eq_bitwise crc data
    · exact crc32cHw_eq_bitwise crc data

/-- The check value of the iSCSI test vector `"123456789"`, on both paths. -/
example : crc32cCompute false [0x31, 0x32, 0x33, 0x34, 0x35, 0x36, 0x37, 0x38, 0x39] =
    0xE3069283 := by decide +kernel

example : crc32cCompute true [0x31, 0x32, 0x33, 0x34, 0x35, 0x36, 0x37, 0x38, 0x39] =
    0xE3069283 := by decide +kernel

/-- **Streaming**: a CRC continued from the CRC of `a` is the CRC of `a ++ b`. -/
theorem crc32c_append (hasHw : Bool) (crc : UInt32) (a b : List UInt8) :
    crc32c hasHw (crc32c hasHw crc a) b = crc32c hasHw crc (a ++ b) := by
  rw [crc32c_eq_bitwise, crc32c_eq_bitwise, crc32c_eq_bitwise, crc32cBitwise_append]

/-- The XFS helper is the checksum of the buffer with its checksum field zeroed. -/
theorem crc32cBlockWithCksum_eq (hasHw : Bool) (buffer : List UInt8) (cksumOffset : Nat) :
    crc32cBlockWithCksum hasHw buffer cksumOffset =
      crc32cCompute hasHw (buffer.take cksumOffset ++ [0, 0, 0, 0] ++ buffer.drop (cksumOffset + 4)) := by
  rw [crc32cBlockWithCksum, crc32cCompute, crc32c_append, crc32c_append, List.append_assoc]

/-- **The table and the instruction compute the bit-serial CRC**; hence the interface streams,
and the XFS helper is the checksum of the block with its checksum field zeroed. -/
theorem crc32c_implementations_agree :
    (∀ crc data, crc32cSw crc data = crc32cBitwise crc data) ∧
    (∀ crc data, crc32cHw crc data = crc32cBitwise crc data) ∧
    (∀ hasHw crc a b, crc32c hasHw (crc32c hasHw crc a) b = crc32c hasHw crc (a ++ b)) ∧
    (∀ hasHw buffer cksumOffset, cksumOffset + 4 ≤ buffer.length →
      crc32cBlockWithCksum hasHw buffer cksumOffset =
        crc32cCompute hasHw
          (buffer.take cksumOffset ++ [0, 0, 0, 0] ++ buffer.drop (cksumOffset + 4))) :=
  ⟨crc32cSw_eq_bitwise, crc32cHw_eq_bitwise, crc32c_append,
    fun hasHw buffer cksumOffset _ => crc32cBlockWithCksum_eq hasHw buffer cksumOffset⟩

theorem crc32c_implementations_agree_block :
    2 + 4 ≤ [1, 2, 3, 4, 5, 6, 7].length ∧
      crc32cBlockWithCksum true [1, 2, 3, 4, 5, 6, 7] 2 =
        crc32cCompute true
          ([1, 2, 3, 4, 5, 6, 7].take 2 ++ [0, 0, 0, 0] ++ [1, 2, 3, 4, 5, 6, 7].drop (2 + 4)) :=
  ⟨by decide, crc32c_implementations_agree.2.2.2 true [1, 2, 3, 4, 5, 6, 7] 2 (by decide)⟩

end Wos.Crc32c
