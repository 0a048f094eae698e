import Mathlib

/-! # Bit fields of a word

A packed record keeps several fields in one word, each in its own run of bits: a field of
width `w` is cut out with a mask `2^w - 1` and moved into place with a shift, and fields
that share no bit are joined with `|||`.  On the numbers the words stand for, a mask is a
remainder (`and_eq_mod`) and fields in disjoint runs add (`or_eq_add_of_dvd`,
`or_or_eq_add`), so that a whole packing becomes a sum whose fields `omega` can take apart
with division and remainder by powers of two.
-/

namespace BitFields

/-- A mask of `w` low bits is the remainder modulo `2^w`. -/
theorem and_eq_mod (x : Nat) {m w : Nat} (h : m + 1 = 2 ^ w) : x &&& m = x % 2 ^ w := by
  rw [show m = 2 ^ w - 1 by omega, Nat.and_two_pow_sub_one_eq_mod]

/-- A multiple of `2^m` and a number below `2^m` have no bit in common. -/
theorem or_eq_add_of_dvd {a x m : Nat} (ha : 2 ^ m ∣ a) (hx : x < 2 ^ m) : a ||| x = a + x := by
  obtain ⟨q, rfl⟩ := ha
  exact (Nat.two_pow_add_eq_or_of_lt hx q).symm

/-- Three fields, the high one at bit `t`, the middle one from bit `s` up to `t`, the low one
below `s`, join into their sum. -/
theorem or_or_eq_add {a b c s t : Nat} (hst : s ≤ t) (ha : 2 ^ t ∣ a) (hb : 2 ^ s ∣ b)
    (hb' : b < 2 ^ t) (hc : c < 2 ^ s) : a ||| b ||| c = a + b + c := by
  have has : 2 ^ s ∣ a := (Nat.pow_dvd_pow 2 hst).trans ha
  rw [or_eq_add_of_dvd ha hb', or_eq_add_of_dvd (Nat.dvd_add has hb) hc]

end BitFields
