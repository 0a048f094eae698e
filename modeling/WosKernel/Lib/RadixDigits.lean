import Mathlib

/-! # Positional digits

Digit `l` of `j` in base `b` is `j / b^l % b`.  A radix tree of fan-out `b` picks
the child at level `l + 1` by digit `l` of the key, so what a node of level `l`
stores depends on the key only modulo `b^l`.  These lemmas split a number at a
digit and put it back together.
-/

namespace RadixDigits

/-- Digit `l` of `j` in base `b`. -/
def digit (b j l : Nat) : Nat := j / b ^ l % b

variable {b : Nat}

theorem digit_lt (hb : 0 < b) (j l : Nat) : digit b j l < b := Nat.mod_lt _ hb

/-- The part of `j` below digit `l + 1` is digit `l` followed by the part below `l`. -/
theorem mod_pow_succ (j l : Nat) : j % b ^ (l + 1) = digit b j l * b ^ l + j % b ^ l := by
  rw [Nat.mod_pow_succ, digit, Nat.mul_comm, Nat.add_comm]

/-- **Two numbers agree below digit `l + 1` exactly when they agree at digit `l` and
below it.** -/
theorem mod_pow_succ_eq_iff (hb : 0 < b) {j k l : Nat} :
    j % b ^ (l + 1) = k % b ^ (l + 1) ↔ digit b j l = digit b k l ∧ j % b ^ l = k % b ^ l := by
  have hpos : 0 < b ^ l := Nat.pow_pos hb
  rw [mod_pow_succ, mod_pow_succ]
  constructor
  · intro h
    -- the parts below `b^l` are remainders, so division by `b^l` separates the two
    have hdiv := congrArg (· / b ^ l) h
    have hmod := congrArg (· % b ^ l) h
    simp only [Nat.add_comm (_ * b ^ l), Nat.add_mul_div_right _ _ hpos,
      Nat.add_mul_mod_self_right, Nat.mod_mod, Nat.div_eq_of_lt (Nat.mod_lt _ hpos),
      Nat.zero_add] at hdiv hmod
    exact ⟨hdiv, hmod⟩
  · rintro ⟨h₁, h₂⟩
    rw [h₁, h₂]

/-- Digit `l` of `i * b^l + j`, for a digit `i` and `j < b^l`, is `i`. -/
theorem digit_mul_pow_add {i j l : Nat} (hi : i < b) (hj : j < b ^ l) :
    digit b (i * b ^ l + j) l = i := by
  have hpos : 0 < b ^ l := Nat.lt_of_le_of_lt (Nat.zero_le _) hj
  unfold digit
  rw [Nat.add_comm, Nat.add_mul_div_right _ _ hpos, Nat.div_eq_of_lt hj, Nat.zero_add,
    Nat.mod_eq_of_lt hi]

theorem mul_pow_add_mod {i j l : Nat} (hj : j < b ^ l) : (i * b ^ l + j) % b ^ l = j := by
  rw [Nat.add_comm, Nat.add_mul_mod_self_right, Nat.mod_eq_of_lt hj]

/-- A number below `b^l` has digit `l` zero. -/
theorem digit_eq_zero_of_lt {j l : Nat} (hj : j < b ^ l) : digit b j l = 0 := by
  unfold digit
  rw [Nat.div_eq_of_lt hj, Nat.zero_mod]

/-- A number below `b^(l+1)` whose digit `l` is zero is below `b^l`. -/
theorem lt_pow_of_digit_eq_zero {j l : Nat} (hj : j < b ^ (l + 1)) (h0 : digit b j l = 0) :
    j < b ^ l := by
  have hsplit := mod_pow_succ (b := b) j l
  rw [Nat.mod_eq_of_lt hj, h0, Nat.zero_mul, Nat.zero_add] at hsplit
  rw [hsplit]
  exact Nat.mod_lt _ (Nat.pow_pos (Nat.pos_of_ne_zero (by rintro rfl; simp at hj)))

/-- A number below `b^(l+1)` is its digit `l` times `b^l` plus the part below. -/
theorem eq_digit_mul_pow_add {j l : Nat} (hj : j < b ^ (l + 1)) :
    j = digit b j l * b ^ l + j % b ^ l := by
  rw [← mod_pow_succ, Nat.mod_eq_of_lt hj]

end RadixDigits
