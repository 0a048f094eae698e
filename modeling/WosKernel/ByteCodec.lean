import Mathlib

/-! # Fixed-width integers in byte buffers

On-disk and on-wire structures store integers as runs of bytes, least significant
first (`encodeLE`, `decodeLE`) or most significant first (`encodeBE`, `decodeBE`),
at fixed offsets of a buffer.  A buffer is read with `slice` and written with
`overwrite`, which, like `memcpy` into a buffer of fixed size, never changes its
length.

The facts later proofs use:

* decoding an encoded field gives the value back, modulo the field's width
  (`decodeLE_encodeLE`, `decodeBE_encodeBE`), and encoding a decoded run gives the run back
  (`encodeLE_decodeLE`);
* a field written with `overwrite` reads back (`slice_overwrite_self`), and the
  bytes outside it are those of the buffer before (`slice_overwrite_of_le`,
  `slice_overwrite_of_ge`);
* zero bytes decode to zero (`decodeLE_replicate_zero`, `decodeBE_replicate_zero`).

Nothing here depends on what the buffers hold.
-/

namespace ByteCodec

/-- The number a run of bytes stores, least significant byte first. -/
def decodeLE : List UInt8 → Nat
  | [] => 0
  | b :: rest => b.toNat + 256 * decodeLE rest

/-- The `width` bytes of `value`, least significant first; `value` is taken modulo
`256 ^ width`. -/
def encodeLE : Nat → Nat → List UInt8
  | 0, _ => []
  | width + 1, value => UInt8.ofNat value :: encodeLE width (value / 256)

/-- The number a run of bytes stores, most significant byte first. -/
def decodeBE (bs : List UInt8) : Nat := decodeLE bs.reverse

/-- The `width` bytes of `value`, most significant first. -/
def encodeBE (width value : Nat) : List UInt8 := (encodeLE width value).reverse

/-- The `width` bytes of `buf` from offset `off` (fewer where `buf` ends first). -/
def slice (buf : List UInt8) (off width : Nat) : List UInt8 := (buf.drop off).take width

/-- `buf` with the bytes from offset `off` on replaced by `src`; what would pass the
end of `buf` is dropped. -/
def overwrite (buf : List UInt8) (off : Nat) (src : List UInt8) : List UInt8 :=
  buf.take off ++ src.take (buf.length - off) ++ buf.drop (off + src.length)

@[simp] theorem length_encodeLE (width value : Nat) : (encodeLE width value).length = width := by
  induction width generalizing value with
  | zero => rfl
  | succ width ih => simp [encodeLE, ih]

@[simp] theorem length_encodeBE (width value : Nat) : (encodeBE width value).length = width := by
  simp [encodeBE]

theorem decodeLE_encodeLE (width value : Nat) :
    decodeLE (encodeLE width value) = value % 256 ^ width := by
  induction width generalizing value with
  | zero => simp [encodeLE, decodeLE, Nat.mod_one]
  | succ width ih =>
    rw [encodeLE, decodeLE, ih, UInt8.toNat_ofNat']
    change value % 256 + 256 * (value / 256 % 256 ^ width) = value % 256 ^ (width + 1)
    rw [pow_succ', @Nat.mod_mul 256 (256 ^ width) value]

theorem decodeBE_encodeBE (width value : Nat) :
    decodeBE (encodeBE width value) = value % 256 ^ width := by
  rw [decodeBE, encodeBE, List.reverse_reverse, decodeLE_encodeLE]

theorem decodeLE_lt (bs : List UInt8) : decodeLE bs < 256 ^ bs.length := by
  induction bs with
  | nil => simp [decodeLE]
  | cons b bs ih =>
    have hb := b.toNat_lt
    rw [decodeLE, List.length_cons, pow_succ]
    omega

/-- Encoding what a run of bytes stores, at the run's own width, gives the run back. -/
theorem encodeLE_decodeLE (bs : List UInt8) : encodeLE bs.length (decodeLE bs) = bs := by
  induction bs with
  | nil => rfl
  | cons b bs ih =>
    have hb := b.toNat_lt
    have hlow : UInt8.ofNat (b.toNat + 256 * decodeLE bs) = b := by
      apply UInt8.toNat_inj.mp
      rw [UInt8.toNat_ofNat']
      omega
    have hhigh : (b.toNat + 256 * decodeLE bs) / 256 = decodeLE bs := by omega
    rw [List.length_cons, encodeLE, decodeLE, hlow, hhigh, ih]

theorem decodeLE_replicate_zero (n : Nat) : decodeLE (List.replicate n 0) = 0 := by
  induction n with
  | zero => rfl
  | succ n ih => simp [List.replicate_succ, decodeLE, ih]

theorem decodeBE_replicate_zero (n : Nat) : decodeBE (List.replicate n 0) = 0 := by
  rw [decodeBE, List.reverse_replicate, decodeLE_replicate_zero]

@[simp] theorem length_overwrite (buf : List UInt8) (off : Nat) (src : List UInt8) :
    (overwrite buf off src).length = buf.length := by
  simp only [overwrite, List.length_append, List.length_take, List.length_drop]
  omega

/-- **A field written into a buffer reads back.** -/
theorem slice_overwrite_self {buf src : List UInt8} {off : Nat} (h : off + src.length ≤ buf.length) :
    slice (overwrite buf off src) off src.length = src := by
  have hoff : (buf.take off).length = off := by simp; omega
  rw [slice, overwrite, List.append_assoc, List.drop_left' hoff,
    List.take_of_length_le (by omega : src.length ≤ buf.length - off)]
  exact List.take_left' rfl

/-- Bytes that end before the written field are those of the buffer before. -/
theorem slice_overwrite_of_le {buf src : List UInt8} {off a width : Nat}
    (hsrc : off + src.length ≤ buf.length) (h : a + width ≤ off) :
    slice (overwrite buf off src) a width = slice buf a width := by
  have hoff : (buf.take off).length = off := by simp; omega
  rw [slice, overwrite, List.append_assoc, List.drop_append_of_le_length (by omega),
    List.take_append_of_le_length (by simp; omega), List.drop_take, List.take_take,
    Nat.min_eq_left (by omega : width ≤ off - a), slice]

/-- Bytes that start after the written field are those of the buffer before. -/
theorem slice_overwrite_of_ge {buf src : List UInt8} {off a width : Nat}
    (hsrc : off + src.length ≤ buf.length) (h : off + src.length ≤ a) :
    slice (overwrite buf off src) a width = slice buf a width := by
  have hlen : (buf.take off ++ src.take (buf.length - off)).length = off + src.length := by
    simp; omega
  rw [slice, overwrite, List.drop_append, List.drop_eq_nil_of_le (by omega), List.nil_append, hlen,
    List.drop_drop, slice]
  congr 2
  omega

/-- Bytes inside the written field are those of the field. -/
theorem slice_overwrite_inside {buf src : List UInt8} {off a width : Nat}
    (hsrc : off + src.length ≤ buf.length) (h : a + width ≤ src.length) :
    slice (overwrite buf off src) (off + a) width = slice src a width := by
  have hoff : (buf.take off).length = off := by simp; omega
  rw [slice, overwrite, List.append_assoc, List.drop_append, hoff,
    List.drop_eq_nil_of_le (by simp), List.nil_append, Nat.add_sub_cancel_left,
    List.take_of_length_le (by omega : src.length ≤ buf.length - off),
    List.drop_append_of_le_length (by omega), List.take_append_of_le_length (by simp; omega), slice]

theorem slice_take {l : List UInt8} {n a width : Nat} (h : a + width ≤ n) :
    slice (l.take n) a width = slice l a width := by
  rw [slice, slice, List.drop_take, List.take_take, Nat.min_eq_left (by omega)]

theorem slice_replicate (n off width : Nat) (x : UInt8) :
    slice (List.replicate n x) off width = List.replicate (min width (n - off)) x := by
  simp [slice, List.drop_replicate, List.take_replicate]

theorem getElem?_overwrite_of_lt {buf src : List UInt8} {off i : Nat} (h : i < off) :
    (overwrite buf off src)[i]? = buf[i]? := by
  by_cases hi : i < buf.length
  · rw [overwrite, List.append_assoc, List.getElem?_append_left (by simp; omega),
      List.getElem?_take_of_lt h]
  · rw [List.getElem?_eq_none (by simp; omega), List.getElem?_eq_none (by omega)]

/-- Past the written field, the bytes of the buffer before. -/
theorem getElem?_overwrite_of_ge {buf src : List UInt8} {off i : Nat} (h : off + src.length ≤ i) :
    (overwrite buf off src)[i]? = buf[i]? := by
  by_cases hi : i < buf.length
  · have hpre : (buf.take off ++ src.take (buf.length - off)).length = off + src.length := by
      simp only [List.length_append, List.length_take]
      omega
    rw [overwrite, List.getElem?_append_right (by omega), hpre, List.getElem?_drop,
      Nat.add_sub_cancel' h]
  · rw [List.getElem?_eq_none (by simp; omega), List.getElem?_eq_none (by omega)]

/-- Inside the written field, the bytes of the field. -/
theorem getElem?_overwrite_add {buf src : List UInt8} {off j : Nat}
    (hfit : off + src.length ≤ buf.length) (hj : j < src.length) :
    (overwrite buf off src)[off + j]? = src[j]? := by
  have hoff : (buf.take off).length = off := by simp; omega
  rw [overwrite, List.append_assoc, List.getElem?_append_right (by omega), hoff,
    Nat.add_sub_cancel_left, List.getElem?_append_left (by simp; omega),
    List.getElem?_take_of_lt (by omega)]

/-- Inside the written field, by offset in the buffer. -/
theorem getElem?_overwrite_of_mem {buf src : List UInt8} {off i : Nat}
    (hfit : off + src.length ≤ buf.length) (h1 : off ≤ i) (h2 : i < off + src.length) :
    (overwrite buf off src)[i]? = src[i - off]? := by
  obtain ⟨j, rfl⟩ := Nat.exists_eq_add_of_le h1
  rw [Nat.add_sub_cancel_left]
  exact getElem?_overwrite_add hfit (by omega)

theorem length_slice {l : List UInt8} {off width : Nat} (h : off + width ≤ l.length) :
    (slice l off width).length = width := by
  simp [slice]
  omega

theorem getElem?_slice {l : List UInt8} {off width j : Nat} (hj : j < width) :
    (slice l off width)[j]? = l[off + j]? := by
  rw [slice, List.getElem?_take_of_lt hj, List.getElem?_drop]

end ByteCodec
