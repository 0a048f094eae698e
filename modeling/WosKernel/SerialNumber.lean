import Mathlib

/-! # Serial-number arithmetic on 32-bit counters

A 32-bit counter that wraps names an unbounded position modulo `2^32`.  RFC 1982
compares two such names by the sign of their 32-bit difference (`Precedes`).  This
module relates that comparison to the positions the names stand for:

* within half the counter space the comparison is exact (`precedes_ofNat_iff`);
* a name that follows the start of a window of fewer than `2^31` positions and does
  not follow its end names exactly one position of that window, past its start
  (`exists_of_window`);
* the names of a run of consecutive positions (`names`) split and extend like the run.

Nothing here depends on what the counters count.
-/

namespace SerialNumber

/-- The order of RFC 1982 on 32-bit serial numbers: `a` precedes `b` when the
difference `a - b`, read as a signed 32-bit integer, is negative. -/
def Precedes (a b : UInt32) : Prop := (a - b).toInt32 < 0

instance (a b : UInt32) : Decidable (Precedes a b) :=
  inferInstanceAs (Decidable ((a - b).toInt32 < 0))

/-- A signed 32-bit difference is negative exactly when its top bit is set. -/
theorem precedes_iff_toNat (a b : UInt32) : Precedes a b ↔ 2 ^ 31 ≤ (a - b).toNat := by
  have h : Precedes a b ↔ (a - b).toBitVec.slt 0#32 := Iff.rfl
  rw [h, BitVec.slt_zero_iff_msb_cond, BitVec.msb_eq_true_iff_two_mul_ge]
  simp only [UInt32.toNat_toBitVec]
  omega

theorem toNat_sub_ofNat (m n : Nat) :
    (UInt32.ofNat m - UInt32.ofNat n).toNat = (2 ^ 32 - n % 2 ^ 32 + m % 2 ^ 32) % 2 ^ 32 := by
  rw [UInt32.toNat_sub, UInt32.toNat_ofNat', UInt32.toNat_ofNat']

/-- **Serial order is the order of positions within half the counter space.** -/
theorem precedes_ofNat_iff {m n : Nat} (h₁ : m < n + 2 ^ 31) (h₂ : n < m + 2 ^ 31) :
    Precedes (UInt32.ofNat m) (UInt32.ofNat n) ↔ m < n := by
  rw [precedes_iff_toNat, toNat_sub_ofNat]
  omega

/-- **A name accepted by a window names one of its positions.**  If `u` follows the
name of `lo` and does not follow the name of `hi`, and the window `[lo, hi]` is
shorter than `2^31`, then `u` is the name of a position in `(lo, hi]`. -/
theorem exists_of_window {lo hi : Nat} {u : UInt32} (hle : lo ≤ hi) (hsmall : hi < lo + 2 ^ 31)
    (h₁ : Precedes (UInt32.ofNat lo) u) (h₂ : ¬ Precedes (UInt32.ofNat hi) u) :
    ∃ t, lo < t ∧ t ≤ hi ∧ u = UInt32.ofNat t := by
  obtain ⟨d, hd, rfl⟩ : ∃ d, d < 2 ^ 32 ∧ u = UInt32.ofNat (lo + d) := by
    refine ⟨(u - UInt32.ofNat lo).toNat, UInt32.toNat_lt _, ?_⟩
    rw [UInt32.ofNat_add, UInt32.ofNat_toNat]
    simp
  rw [precedes_iff_toNat, toNat_sub_ofNat] at h₁ h₂
  refine ⟨lo + d, ?_, ?_, rfl⟩ <;> omega

/-! ## Offsets ahead of a base

A receiver that expects the name `base` reads every other name `s` as the
distance it lies ahead, `offset base s`.  Names within half the counter space
ahead of one base compare like their offsets, and moving the base forward moves
the offsets down. -/

/-- How far `s` lies ahead of `base`, counting modulo `2^32`. -/
def offset (base s : UInt32) : Nat := (s - base).toNat

theorem offset_lt (base s : UInt32) : offset base s < 2 ^ 32 := UInt32.toNat_lt _

@[simp] theorem offset_self (base : UInt32) : offset base base = 0 := by
  simp [offset]

theorem offset_injective (base : UInt32) : Function.Injective (offset base) := by
  intro a b h
  have ha := UInt32.toNat_lt a
  have hb := UInt32.toNat_lt b
  unfold offset at h
  rw [UInt32.toNat_sub, UInt32.toNat_sub] at h
  exact UInt32.toNat_inj.mp (by omega)

/-- A name precedes the base exactly when it lies at least half the counter space
ahead of it. -/
theorem precedes_base_iff (base s : UInt32) : Precedes s base ↔ 2 ^ 31 ≤ offset base s :=
  precedes_iff_toNat s base

/-- **Within half the counter space ahead of one base, serial order is the order
of offsets.** -/
theorem precedes_iff_offset_lt {base a b : UInt32} (ha : offset base a < 2 ^ 31)
    (hb : offset base b < 2 ^ 31) : Precedes a b ↔ offset base a < offset base b := by
  have := UInt32.toNat_lt a
  have := UInt32.toNat_lt b
  have := UInt32.toNat_lt base
  unfold offset at ha hb ⊢
  rw [precedes_iff_toNat, UInt32.toNat_sub, UInt32.toNat_sub, UInt32.toNat_sub]
  rw [UInt32.toNat_sub] at ha hb
  omega

/-- Moving the base `k` forward moves down by `k` the offset of every name at
least `k` ahead. -/
theorem offset_add_ofNat {base s : UInt32} {k : Nat} (h : k ≤ offset base s) :
    offset (base + UInt32.ofNat k) s = offset base s - k := by
  have := UInt32.toNat_lt s
  have := UInt32.toNat_lt base
  have hk : k < 2 ^ 32 := Nat.lt_of_le_of_lt h (offset_lt base s)
  unfold offset at h ⊢
  rw [UInt32.toNat_sub, UInt32.toNat_add, UInt32.toNat_ofNat', Nat.mod_eq_of_lt hk] at *
  rw [UInt32.toNat_sub]
  omega

/-- A name less than half the counter space ahead of `base` precedes `base + k`,
for `k ≤ 2^31`, exactly when it lies fewer than `k` ahead of `base`. -/
theorem precedes_add_ofNat_iff {base s : UInt32} {k : Nat} (hs : offset base s < 2 ^ 31)
    (hk : k ≤ 2 ^ 31) : Precedes s (base + UInt32.ofNat k) ↔ offset base s < k := by
  have := UInt32.toNat_lt s
  have := UInt32.toNat_lt base
  unfold offset at hs ⊢
  rw [precedes_iff_toNat, UInt32.toNat_sub, UInt32.toNat_add, UInt32.toNat_ofNat',
    Nat.mod_eq_of_lt (by omega : k < 2 ^ 32), UInt32.toNat_sub]
  rw [UInt32.toNat_sub] at hs
  omega

/-- The signed 32-bit distance of `s` from `base` is its offset when that is below
`2^31`. -/
theorem toInt_toInt32_sub {base s : UInt32} (h : offset base s < 2 ^ 31) :
    (s - base).toInt32.toInt = offset base s := by
  rw [← Int32.toInt_toBitVec, UInt32.toBitVec_toInt32, BitVec.toInt_eq_toNat_of_msb]
  · rfl
  · rw [BitVec.msb_eq_false_iff_two_mul_lt]
    show 2 * offset base s < 2 ^ 32
    omega

/-! ## Names of consecutive positions -/

/-- The names of the `count` consecutive positions from `start`. -/
def names (start count : Nat) : List UInt32 := (List.range' start count).map UInt32.ofNat

@[simp] theorem names_zero (start : Nat) : names start 0 = [] := rfl

@[simp] theorem length_names (start count : Nat) : (names start count).length = count := by
  simp [names]

theorem names_succ (start count : Nat) :
    names start (count + 1) = UInt32.ofNat start :: names (start + 1) count := by
  simp [names, List.range'_succ]

theorem names_add (start m n : Nat) : names start (m + n) = names start m ++ names (start + m) n := by
  rw [names, names, names, ← List.range'_append_1, List.map_append]

theorem names_succ_right (start count : Nat) :
    names start (count + 1) = names start count ++ [UInt32.ofNat (start + count)] := by
  rw [names_add]
  rfl

theorem names_prefix {start m n : Nat} (h : m ≤ n) : names start m <+: names start n := by
  obtain ⟨k, rfl⟩ := Nat.exists_eq_add_of_le h
  rw [names_add]
  exact List.prefix_append _ _

theorem names_take {start count k : Nat} (h : k ≤ count) :
    (names start count).take k = names start k := by
  rw [names, names, ← List.map_take, List.take_range'_of_length_ge h]

theorem names_drop (start count k : Nat) :
    (names start count).drop k = names (start + k) (count - k) := by
  rw [names, names, ← List.map_drop, List.drop_range', Nat.mul_one]

/-- A run of names depends on its start only modulo `2^32`. -/
theorem names_toNat_ofNat (start count : Nat) :
    names (UInt32.ofNat start).toNat count = names start count := by
  unfold names
  rw [List.range'_eq_map_range, List.range'_eq_map_range, List.map_map, List.map_map]
  refine List.map_congr_left fun i _ => ?_
  simp only [Function.comp_apply, UInt32.ofNat_add, UInt32.ofNat_toNat]

/-- The run of names from a counter's value: the value, then its successors. -/
theorem names_toNat (a : UInt32) (count : Nat) :
    names a.toNat count = (List.range count).map (fun i => a + UInt32.ofNat i) := by
  unfold names
  rw [List.range'_eq_map_range, List.map_map]
  refine List.map_congr_left fun i _ => ?_
  simp only [Function.comp_apply, UInt32.ofNat_add, UInt32.ofNat_toNat]

/-- A run of names followed by the run that continues it is one run. -/
theorem append_eq_names {l l' : List UInt32} {start : Nat} (h : l = names start l.length)
    (h' : l' = names (start + l.length) l'.length) : l ++ l' = names start (l ++ l').length := by
  rw [List.length_append, names_add, ← h, ← h']

end SerialNumber
