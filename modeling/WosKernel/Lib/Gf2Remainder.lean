import Mathlib

/-! # Remainders of GF(2) polynomials, and reflected registers

A polynomial over GF(2) is kept as a natural number whose bit `i` is the coefficient of
`x^i`: exclusive or adds two polynomials and doubling multiplies by `x`.

`mod2 d p w x` is the remainder of the low `w` bits of `x` modulo a polynomial `p` of degree
`d`, computed by long division from the top bit down, which is how instruction-set manuals write
`MOD2`.  It is linear (`mod2_xor`) and stops depending on the width once the width covers `x`
(`mod2_eq_rem`); `rem` is then the remainder of all of `x`, and multiplying by `x` is one more
division step, `mulX` (`rem_two_mul`).

`bitReflect w x` reverses the low `w` bits of `x`.  A CRC kept least significant bit first
shifts its register right and adds the reflected polynomial when the bit shifted out was set
(`reflStep`); the reflection of that step is `mulX` (`bitReflect_reflStep`), so a reflected
register fed a chunk of message bits holds the reflection of the remainder of the message
(`crc_chunk`).
-/

namespace Gf2

section Remainder

variable (d p : Nat)

/-- One step of long division by `p`: bring down bit `b`, and subtract `p` once the partial
remainder reaches degree `d`. -/
def reduceStep (r b : Nat) : Nat :=
  let t := 2 * r + b
  if t.testBit d then t ^^^ p else t

/-- The remainder of the low `w` bits of `x` modulo `p`, by long division from bit `w - 1`
down to bit `0`. -/
def mod2 : Nat → Nat → Nat
  | 0, _ => 0
  | w + 1, x => reduceStep d p (mod2 w (x / 2)) (x % 2)

/-- Multiplication by `x` modulo `p`. -/
def mulX (r : Nat) : Nat := reduceStep d p r 0

/-- The remainder of `x` modulo `p`, over all of its bits. -/
def rem (x : Nat) : Nat := mod2 d p x.size x

variable {d p}

@[simp] theorem mod2_zero_width (x : Nat) : mod2 d p 0 x = 0 := rfl

theorem mod2_succ (w x : Nat) :
    mod2 d p (w + 1) x = reduceStep d p (mod2 d p w (x / 2)) (x % 2) := rfl

/-- Bringing down a bit `b` next to a doubled number adds it in the free low bit. -/
theorem two_mul_add_eq_xor (r : Nat) {b : Nat} (hb : b < 2) : 2 * r + b = 2 * r ^^^ b := by
  apply Nat.eq_of_testBit_eq
  intro i
  have hlow := Nat.testBit_two_pow_mul_add r (show b < 2 ^ 1 by omega) i
  have hdbl := Nat.testBit_two_pow_mul (i := 1) (a := r) (j := i)
  rw [Nat.pow_one] at hlow hdbl
  rw [hlow, Nat.testBit_xor, hdbl]
  rcases Nat.lt_or_ge i 1 with hi | hi
  · obtain rfl : i = 0 := by omega
    simp
  · rw [if_neg (by omega), Nat.testBit_lt_two_pow (Nat.lt_of_lt_of_le (show b < 2 ^ 1 by omega)
      (Nat.pow_le_pow_right (by omega) hi))]
    simp [hi]

theorem xor_mul_two_pow (a b k : Nat) : (a ^^^ b) * 2 ^ k = a * 2 ^ k ^^^ b * 2 ^ k := by
  rw [← Nat.shiftLeft_eq, ← Nat.shiftLeft_eq, ← Nat.shiftLeft_eq, Nat.shiftLeft_xor_distrib]

theorem mul_two_pow_lt {x a : Nat} (hx : x < 2 ^ a) (b : Nat) : x * 2 ^ b < 2 ^ (a + b) := by
  rw [Nat.pow_add]
  exact Nat.mul_lt_mul_of_pos_right hx (Nat.two_pow_pos b)

theorem xor_xor_xor_cancel (a b c : Nat) : (a ^^^ c) ^^^ (b ^^^ c) = a ^^^ b := by
  rw [Nat.xor_assoc, ← Nat.xor_assoc c, Nat.xor_comm c b, Nat.xor_assoc b, Nat.xor_self,
    Nat.xor_zero]

/-- Doubling and bringing down a bit commute with exclusive or. -/
theorem two_mul_add_xor (r s : Nat) {b c : Nat} (hb : b < 2) (hc : c < 2) :
    2 * (r ^^^ s) + (b ^^^ c) = (2 * r + b) ^^^ (2 * s + c) := by
  have hbc : b ^^^ c < 2 := Nat.xor_lt_two_pow (n := 1) (by omega) (by omega)
  have hdbl : 2 * (r ^^^ s) = 2 * r ^^^ 2 * s := by
    simpa [Nat.mul_comm] using xor_mul_two_pow r s 1
  rw [two_mul_add_eq_xor _ hbc, two_mul_add_eq_xor r hb, two_mul_add_eq_xor s hc, hdbl]
  ac_rfl

/-- **Long division is linear.** -/
theorem reduceStep_xor (r s : Nat) {b c : Nat} (hb : b < 2) (hc : c < 2) :
    reduceStep d p (r ^^^ s) (b ^^^ c) = reduceStep d p r b ^^^ reduceStep d p s c := by
  simp only [reduceStep, two_mul_add_xor r s hb hc, Nat.testBit_xor]
  cases (2 * r + b).testBit d <;> cases (2 * s + c).testBit d <;> simp only [Bool.xor_false,
    Bool.xor_true, Bool.not_true, Bool.not_false, Bool.false_eq_true, if_true, if_false]
  · ac_rfl
  · ac_rfl
  · exact (xor_xor_xor_cancel _ _ _).symm

theorem mod2_xor (w x y : Nat) : mod2 d p w (x ^^^ y) = mod2 d p w x ^^^ mod2 d p w y := by
  induction w generalizing x y with
  | zero => simp
  | succ w ih =>
    have hmod : (x ^^^ y) % 2 = x % 2 ^^^ y % 2 := by
      simpa using Nat.xor_mod_two_pow (a := x) (b := y) (n := 1)
    rw [mod2_succ, mod2_succ, mod2_succ, Nat.xor_div_two, ih, hmod,
      reduceStep_xor _ _ (Nat.mod_lt _ (by omega)) (Nat.mod_lt _ (by omega))]

/-- A number below `2 ^ d` already is its own remainder. -/
theorem mod2_of_lt {w x : Nat} (hx : x < 2 ^ w) (hxd : x < 2 ^ d) : mod2 d p w x = x := by
  induction w generalizing x with
  | zero => simp_all
  | succ w ih =>
    have hhalf : x / 2 < 2 ^ w := by rw [Nat.pow_succ] at hx; omega
    rw [mod2_succ, ih hhalf (by omega), reduceStep]
    have hx2 : 2 * (x / 2) + x % 2 = x := Nat.div_add_mod x 2
    simp only [hx2, Nat.testBit_lt_two_pow hxd, Bool.false_eq_true, if_false]

/-- A leading zero bit changes no remainder. -/
theorem mod2_succ_of_lt {w x : Nat} (hx : x < 2 ^ w) : mod2 d p (w + 1) x = mod2 d p w x := by
  induction w generalizing x with
  | zero =>
    obtain rfl : x = 0 := by simpa using hx
    simp [mod2_succ, reduceStep]
  | succ w ih =>
    have hhalf : x / 2 < 2 ^ w := by rw [Nat.pow_succ] at hx; omega
    rw [mod2_succ, ih hhalf, ← mod2_succ]

theorem mod2_add_of_lt {w x : Nat} (hx : x < 2 ^ w) (k : Nat) :
    mod2 d p (w + k) x = mod2 d p w x := by
  induction k with
  | zero => rfl
  | succ k ih =>
    rw [← Nat.add_assoc, mod2_succ_of_lt (Nat.lt_of_lt_of_le hx
      (Nat.pow_le_pow_right (by omega) (Nat.le_add_right w k))), ih]

/-- **The remainder does not depend on the width**, once the width covers `x`. -/
theorem mod2_eq_rem {w x : Nat} (hx : x < 2 ^ w) : mod2 d p w x = rem d p x := by
  have hs : x.size ≤ w := Nat.size_le.mpr hx
  obtain ⟨k, rfl⟩ := Nat.exists_eq_add_of_le hs
  exact mod2_add_of_lt (Nat.lt_size_self x) k

theorem rem_xor (x y : Nat) : rem d p (x ^^^ y) = rem d p x ^^^ rem d p y := by
  have hx : x < 2 ^ (x.size + y.size) := Nat.lt_of_lt_of_le (Nat.lt_size_self x)
    (Nat.pow_le_pow_right (by omega) (Nat.le_add_right _ _))
  have hy : y < 2 ^ (x.size + y.size) := Nat.lt_of_lt_of_le (Nat.lt_size_self y)
    (Nat.pow_le_pow_right (by omega) (Nat.le_add_left _ _))
  rw [← mod2_eq_rem hx, ← mod2_eq_rem hy, ← mod2_eq_rem (Nat.xor_lt_two_pow hx hy), mod2_xor]

theorem rem_of_lt {x : Nat} (hx : x < 2 ^ d) : rem d p x = x :=
  mod2_of_lt (Nat.lt_size_self x) hx

/-- **Multiplying by `x` is one more division step.** -/
theorem rem_two_mul (x : Nat) : rem d p (2 * x) = mulX d p (rem d p x) := by
  have hx : 2 * x < 2 ^ (x.size + 1) := by
    have := Nat.lt_size_self x
    rw [Nat.pow_succ]
    omega
  rw [← mod2_eq_rem hx, mod2_succ, Nat.mul_div_cancel_left x (by omega), Nat.mul_mod_right,
    rem, mulX]

theorem rem_mul_two_pow (x n : Nat) : rem d p (x * 2 ^ n) = (mulX d p)^[n] (rem d p x) := by
  induction n with
  | zero => simp
  | succ n ih =>
    rw [Nat.pow_succ, ← Nat.mul_assoc, Nat.mul_comm _ 2, rem_two_mul, ih,
      Function.iterate_succ_apply']

/-- Appending `m` message bits `c` to a dividend `y` augmented by `d` zero bits: the remainder
is `m` multiplications by `x` of the old remainder with `c` added at the top. -/
theorem rem_shift_xor (y : Nat) {m c : Nat} (hm : m ≤ d) (hc : c < 2 ^ m) :
    rem d p (y * 2 ^ m ^^^ c * 2 ^ d) =
      (mulX d p)^[m] (rem d p y ^^^ c * 2 ^ (d - m)) := by
  have hsplit : c * 2 ^ d = c * 2 ^ (d - m) * 2 ^ m := by
    rw [Nat.mul_assoc, ← Nat.pow_add, Nat.sub_add_cancel hm]
  have hlow : c * 2 ^ (d - m) < 2 ^ d := by
    calc c * 2 ^ (d - m) < 2 ^ m * 2 ^ (d - m) := Nat.mul_lt_mul_of_pos_right hc (Nat.two_pow_pos _)
      _ = 2 ^ d := by rw [← Nat.pow_add, Nat.add_sub_cancel' hm]
  rw [hsplit, ← xor_mul_two_pow, rem_mul_two_pow, rem_xor, rem_of_lt hlow]

section Degree

variable (hp : p.testBit d) (hpl : p < 2 ^ (d + 1))
include hp hpl

theorem reduceStep_lt {r b : Nat} (hr : r < 2 ^ d) (hb : b < 2) : reduceStep d p r b < 2 ^ d := by
  have ht : 2 * r + b < 2 ^ (d + 1) := by rw [Nat.pow_succ]; omega
  rw [reduceStep]
  split
  · rename_i hbit
    -- the top bits cancel, and nothing above them is set
    apply Nat.lt_pow_two_of_testBit
    intro i hi
    rcases Nat.lt_or_eq_of_le hi with hdi | rfl
    · rw [Nat.testBit_xor, Nat.testBit_lt_two_pow (Nat.lt_of_lt_of_le ht
        (Nat.pow_le_pow_right (by omega) hdi)),
        Nat.testBit_lt_two_pow (Nat.lt_of_lt_of_le hpl (Nat.pow_le_pow_right (by omega) hdi))]
      rfl
    · rw [Nat.testBit_xor, hbit, hp]
      rfl
  · rename_i hbit
    apply Nat.lt_pow_two_of_testBit
    intro i hi
    rcases Nat.lt_or_eq_of_le hi with hdi | rfl
    · exact Nat.testBit_lt_two_pow
        (Nat.lt_of_lt_of_le ht (Nat.pow_le_pow_right (by omega) hdi))
    · simpa using hbit

theorem mod2_lt (w x : Nat) : mod2 d p w x < 2 ^ d := by
  induction w generalizing x with
  | zero => exact Nat.two_pow_pos d
  | succ w ih => exact reduceStep_lt hp hpl (ih _) (Nat.mod_lt _ (by omega))

theorem mulX_lt {r : Nat} (hr : r < 2 ^ d) : mulX d p r < 2 ^ d :=
  reduceStep_lt hp hpl hr (by omega)

end Degree

end Remainder

/-! ## Bit reflection -/

section Reflect

/-- The low `w` bits of `x` in reverse order. -/
def bitReflect : Nat → Nat → Nat
  | 0, _ => 0
  | w + 1, x => x % 2 * 2 ^ w + bitReflect w (x / 2)

theorem bitReflect_lt (w x : Nat) : bitReflect w x < 2 ^ w := by
  induction w generalizing x with
  | zero => exact Nat.one_pos
  | succ w ih =>
    have hrest := ih (x / 2)
    rw [bitReflect, Nat.pow_succ]
    rcases Nat.mod_two_eq_zero_or_one x with h | h <;> rw [h] <;> omega

/-- Bit `i` of the reflection is bit `w - 1 - i` of `x`. -/
theorem testBit_bitReflect (w x i : Nat) :
    (bitReflect w x).testBit i = (decide (i < w) && x.testBit (w - 1 - i)) := by
  induction w generalizing x with
  | zero => simp [bitReflect]
  | succ w ih =>
    rw [bitReflect, Nat.mul_comm, Nat.testBit_two_pow_mul_add _ (bitReflect_lt w _)]
    split
    · rename_i hi
      rw [ih, Nat.testBit_div_two, show w - 1 - i + 1 = w + 1 - 1 - i by omega]
      simp [hi, show i < w + 1 by omega]
    · rename_i hi
      rw [show x % 2 = x % 2 ^ 1 by rw [Nat.pow_one], Nat.testBit_mod_two_pow]
      rcases Nat.lt_or_ge i (w + 1) with hw | hw
      · obtain rfl : i = w := by omega
        simp
      · simp [show ¬ i - w < 1 by omega, show ¬ i < w + 1 by omega]

theorem bitReflect_xor (w x y : Nat) :
    bitReflect w (x ^^^ y) = bitReflect w x ^^^ bitReflect w y := by
  apply Nat.eq_of_testBit_eq
  intro i
  simp only [testBit_bitReflect, Nat.testBit_xor, Bool.and_xor_distrib_left]

/-- Reflecting twice gives back every number of `w` bits. -/
theorem bitReflect_bitReflect {w x : Nat} (hx : x < 2 ^ w) : bitReflect w (bitReflect w x) = x := by
  apply Nat.eq_of_testBit_eq
  intro i
  rw [testBit_bitReflect, testBit_bitReflect]
  rcases Nat.lt_or_ge i w with hi | hi
  · simp [hi, show w - 1 - (w - 1 - i) = i by omega, show w - 1 - i < w by omega]
  · simp [show ¬ i < w by omega,
      Nat.testBit_lt_two_pow (Nat.lt_of_lt_of_le hx (Nat.pow_le_pow_right (by omega) hi))]

/-- A number of `m` bits, reflected in a wider field, lands in its top `m` bits. -/
theorem bitReflect_of_lt {m w c : Nat} (hc : c < 2 ^ m) (hm : m ≤ w) :
    bitReflect w c = bitReflect m c * 2 ^ (w - m) := by
  apply Nat.eq_of_testBit_eq
  intro i
  rw [testBit_bitReflect, Nat.testBit_mul_two_pow, testBit_bitReflect]
  rcases Nat.lt_or_ge i (w - m) with hi | hi
  · simp only [show ¬ w - m ≤ i by omega, decide_false, Bool.false_and, Bool.and_eq_false_imp,
      decide_eq_true_eq]
    intro _
    exact Nat.testBit_lt_two_pow (Nat.lt_of_lt_of_le hc (Nat.pow_le_pow_right (by omega) (by omega)))
  · simp only [hi, decide_true, Bool.true_and, show w - 1 - i = m - 1 - (i - (w - m)) by omega]
    rcases Nat.lt_or_ge i w with hw | hw
    · simp [hw, show i - (w - m) < m by omega]
    · simp [show ¬ i < w by omega, show ¬ i - (w - m) < m by omega]

/-- Reflecting `w + v` bits: the low `w` bits go to the top, the next `v` to the bottom. -/
theorem bitReflect_append {w v x : Nat} (hx : x < 2 ^ w) (y : Nat) :
    bitReflect (w + v) (x + 2 ^ w * y) = bitReflect w x * 2 ^ v ^^^ bitReflect v y := by
  apply Nat.eq_of_testBit_eq
  intro i
  rw [testBit_bitReflect, Nat.testBit_xor, Nat.testBit_mul_two_pow, testBit_bitReflect,
    testBit_bitReflect, Nat.add_comm x, Nat.testBit_two_pow_mul_add _ hx]
  rcases Nat.lt_or_ge i v with hi | hi
  · simp only [hi, decide_true, show i < w + v by omega, show ¬ v ≤ i by omega, decide_false,
      Bool.false_and, Bool.false_xor, Bool.true_and, show ¬ w + v - 1 - i < w by omega, if_false,
      show w + v - 1 - i - w = v - 1 - i by omega]
  · simp only [show ¬ i < v by omega, decide_false, Bool.false_and, Bool.xor_false, hi,
      decide_true, Bool.true_and]
    rcases Nat.lt_or_ge i (w + v) with hw | hw
    · simp [hw, show w - 1 - (i - v) < w by omega, show i - v < w by omega,
        show w + v - 1 - i = w - 1 - (i - v) by omega]
    · simp [show ¬ i < w + v by omega, show ¬ i - v < w by omega]

/-- Shifting the register right is doubling its reflection, cut to `w` bits. -/
theorem bitReflect_div_two {w x : Nat} (hx : x < 2 ^ w) :
    bitReflect w (x / 2) = 2 * bitReflect w x % 2 ^ w := by
  apply Nat.eq_of_testBit_eq
  intro i
  rw [testBit_bitReflect, Nat.testBit_mod_two_pow, Nat.mul_comm,
    ← Nat.pow_one 2, Nat.testBit_mul_two_pow, testBit_bitReflect, Nat.testBit_div_two]
  rcases Nat.lt_or_ge i w with hw | hw
  · rcases Nat.eq_zero_or_pos i with rfl | hi
    · -- the bit shifted in at the top is bit `w` of `x`, which is clear
      simp [Nat.testBit_lt_two_pow hx, show w - 1 + 1 = w by omega]
    · simp [hw, show 1 ≤ i by omega, show i - 1 < w by omega,
        show w - 1 - i + 1 = w - 1 - (i - 1) by omega]
  · simp [show ¬ i < w by omega]

/-- The top bit of the doubled reflection is the low bit of the register. -/
theorem testBit_two_mul_bitReflect {d r : Nat} (hr : r < 2 ^ d) :
    (2 * bitReflect d r).testBit d = r.testBit 0 := by
  rcases Nat.eq_zero_or_pos d with rfl | hd
  · obtain rfl : r = 0 := by simpa using hr
    simp
  · rw [Nat.mul_comm, ← Nat.pow_one 2, Nat.testBit_mul_two_pow, testBit_bitReflect]
    simp [show 1 ≤ d by omega, show d - 1 < d by omega]

/-- The message polynomial of a list of `m`-bit chunks, each reflected, the first chunk
highest. -/
def reflMsg (m : Nat) (cs : List Nat) : Nat := cs.foldl (fun a c => a * 2 ^ m ^^^ bitReflect m c) 0

/-- Shifting in chunks from a start `a` is shifting them in from zero, with `a` moved above
them. -/
theorem foldl_shift_xor (m : Nat) (g : Nat → Nat) (cs : List Nat) (a : Nat) :
    cs.foldl (fun a c => a * 2 ^ m ^^^ g c) a =
      a * 2 ^ (m * cs.length) ^^^ cs.foldl (fun a c => a * 2 ^ m ^^^ g c) 0 := by
  induction cs generalizing a with
  | nil => simp
  | cons c cs ih =>
    rw [List.foldl_cons, List.foldl_cons, ih, ih (0 * 2 ^ m ^^^ g c), xor_mul_two_pow,
      Nat.zero_mul, Nat.zero_xor, Nat.mul_assoc, ← Nat.pow_add, List.length_cons,
      Nat.mul_succ, Nat.add_comm (m * cs.length) m, Nat.xor_assoc]

theorem reflMsg_cons (m c : Nat) (cs : List Nat) :
    reflMsg m (c :: cs) = bitReflect m c * 2 ^ (m * cs.length) ^^^ reflMsg m cs := by
  rw [reflMsg, List.foldl_cons, Nat.zero_mul, Nat.zero_xor, foldl_shift_xor, reflMsg]

/-- Chunks of `m` bits laid out least significant first fill `m` bits each. -/
theorem foldr_chunks_lt {m : Nat} {cs : List Nat} (hcs : ∀ c ∈ cs, c < 2 ^ m) :
    cs.foldr (fun c a => c + 2 ^ m * a) 0 < 2 ^ (m * cs.length) := by
  induction cs with
  | nil => exact Nat.one_pos
  | cons c cs ih =>
    have hc : c < 2 ^ m := hcs c (List.mem_cons_self ..)
    have hrest := ih (fun c' h => hcs c' (List.mem_cons_of_mem c h))
    rw [List.foldr_cons, List.length_cons, Nat.mul_succ, Nat.add_comm _ m, Nat.pow_add]
    calc c + 2 ^ m * cs.foldr (fun c a => c + 2 ^ m * a) 0
        < 2 ^ m * (cs.foldr (fun c a => c + 2 ^ m * a) 0 + 1) := by rw [Nat.mul_succ]; omega
      _ ≤ 2 ^ m * 2 ^ (m * cs.length) := Nat.mul_le_mul_left _ hrest

/-- Reflecting chunks laid out least significant first gives their reflected message. -/
theorem bitReflect_foldr {m : Nat} {cs : List Nat} (hcs : ∀ c ∈ cs, c < 2 ^ m) :
    bitReflect (m * cs.length) (cs.foldr (fun c a => c + 2 ^ m * a) 0) = reflMsg m cs := by
  induction cs with
  | nil => rfl
  | cons c cs ih =>
    have hc : c < 2 ^ m := hcs c (List.mem_cons_self ..)
    rw [List.foldr_cons, List.length_cons, Nat.mul_succ, Nat.add_comm _ m, bitReflect_append hc,
      ih (fun c' h => hcs c' (List.mem_cons_of_mem c h)), reflMsg_cons]

end Reflect

/-! ## Reflected registers -/

section Register

variable {d p : Nat}

/-- One step of a CRC register kept least significant bit first: shift right, and add the
reflected polynomial `q` when the bit shifted out was set. -/
def reflStep (q r : Nat) : Nat := if r % 2 = 1 then r / 2 ^^^ q else r / 2

/-- **The reflected step is linear.** -/
theorem reflStep_xor (q a b : Nat) : reflStep q (a ^^^ b) = reflStep q a ^^^ reflStep q b := by
  unfold reflStep
  rw [Nat.xor_div_two]
  by_cases ha : a % 2 = 1 <;> by_cases hb : b % 2 = 1
  · rw [if_neg (fun h => Nat.xor_mod_two_eq_one.mp h (iff_of_true ha hb)), if_pos ha, if_pos hb,
      xor_xor_xor_cancel]
  · rw [if_pos (Nat.xor_mod_two_eq_one.mpr (fun h => hb (h.mp ha))), if_pos ha, if_neg hb]
    ac_rfl
  · rw [if_pos (Nat.xor_mod_two_eq_one.mpr (fun h => ha (h.mpr hb))), if_neg ha, if_pos hb]
    ac_rfl
  · rw [if_neg (fun h => Nat.xor_mod_two_eq_one.mp h (iff_of_false ha hb)), if_neg ha, if_neg hb]

theorem reflStep_iterate_xor (q n a b : Nat) :
    (reflStep q)^[n] (a ^^^ b) = (reflStep q)^[n] a ^^^ (reflStep q)^[n] b := by
  induction n generalizing a b with
  | zero => rfl
  | succ n ih => rw [Function.iterate_succ_apply, reflStep_xor, ih]; rfl

/-- A register whose low `n` bits are clear only shifts in `n` steps. -/
theorem reflStep_iterate_mul_two_pow (q y n : Nat) : (reflStep q)^[n] (y * 2 ^ n) = y := by
  induction n generalizing y with
  | zero => simp
  | succ n ih =>
    have hstep : reflStep q (y * 2 ^ (n + 1)) = y * 2 ^ n := by
      rw [reflStep, Nat.pow_succ, ← Nat.mul_assoc, if_neg (by simp),
        Nat.mul_div_cancel _ (by omega)]
    rw [Function.iterate_succ_apply, hstep, ih]

/-- `n` steps of a register are `n` steps of its low `n` bits, plus the rest shifted down. -/
theorem reflStep_iterate_split (q z n : Nat) :
    (reflStep q)^[n] z = (reflStep q)^[n] (z % 2 ^ n) ^^^ z / 2 ^ n := by
  have hz : z = z % 2 ^ n ^^^ z / 2 ^ n * 2 ^ n := by
    apply Nat.eq_of_testBit_eq
    intro i
    rw [Nat.testBit_xor, Nat.testBit_mod_two_pow, Nat.testBit_mul_two_pow, Nat.testBit_div_two_pow]
    rcases Nat.lt_or_ge i n with hi | hi
    · simp [hi, show ¬ n ≤ i by omega]
    · simp [show ¬ i < n by omega, hi, show i - n + n = i by omega]
  calc (reflStep q)^[n] z = (reflStep q)^[n] (z % 2 ^ n ^^^ z / 2 ^ n * 2 ^ n) := congrArg _ hz
    _ = (reflStep q)^[n] (z % 2 ^ n) ^^^ z / 2 ^ n := by
      rw [reflStep_iterate_xor, reflStep_iterate_mul_two_pow]

variable (hp : p.testBit d) (hpl : p < 2 ^ (d + 1))
include hp hpl

omit hp hpl in
theorem reflStep_lt {r : Nat} (hr : r < 2 ^ d) :
    reflStep (bitReflect d (p % 2 ^ d)) r < 2 ^ d := by
  have hhalf : r / 2 < 2 ^ d := by omega
  unfold reflStep
  split
  · exact Nat.xor_lt_two_pow hhalf (bitReflect_lt d _)
  · exact hhalf

/-- **The reflected step is multiplication by `x`** on the reflected register. -/
theorem bitReflect_reflStep {r : Nat} (hr : r < 2 ^ d) :
    bitReflect d (reflStep (bitReflect d (p % 2 ^ d)) r) = mulX d p (bitReflect d r) := by
  have htop := testBit_two_mul_bitReflect hr
  have hmul : mulX d p (bitReflect d r) % 2 ^ d = mulX d p (bitReflect d r) :=
    Nat.mod_eq_of_lt (mulX_lt hp hpl (bitReflect_lt d r))
  rw [← hmul, mulX, reduceStep, Nat.add_zero, htop]
  unfold reflStep
  split
  · rename_i hodd
    rw [bitReflect_xor, bitReflect_bitReflect (Nat.mod_lt _ (Nat.two_pow_pos d)),
      bitReflect_div_two hr, if_pos (by simpa using hodd), Nat.xor_mod_two_pow]
  · rename_i heven
    rw [bitReflect_div_two hr, if_neg (by simpa using heven)]

theorem bitReflect_reflStep_iterate (n : Nat) {r : Nat} (hr : r < 2 ^ d) :
    bitReflect d ((reflStep (bitReflect d (p % 2 ^ d)))^[n] r) =
      (mulX d p)^[n] (bitReflect d r) := by
  induction n generalizing r with
  | zero => rfl
  | succ n ih =>
    rw [Function.iterate_succ_apply, Function.iterate_succ_apply, ih (reflStep_lt hr),
      bitReflect_reflStep hp hpl hr]

/-- **A CRC chunk.**  If the reflected register holds the reflected remainder of `y`, then after
`m` message bits `c` are added into its low end and `m` steps are taken, it holds the reflected
remainder of `y` with the reflected chunk appended. -/
theorem crc_chunk {m r y c : Nat} (hm : m ≤ d) (hr : r < 2 ^ d) (hc : c < 2 ^ m)
    (hry : bitReflect d r = rem d p y) :
    bitReflect d ((reflStep (bitReflect d (p % 2 ^ d)))^[m] (r ^^^ c)) =
      rem d p (y * 2 ^ m ^^^ bitReflect m c * 2 ^ d) := by
  have hcd : c < 2 ^ d := Nat.lt_of_lt_of_le hc (Nat.pow_le_pow_right (by omega) hm)
  rw [bitReflect_reflStep_iterate hp hpl m (Nat.xor_lt_two_pow hr hcd), bitReflect_xor, hry,
    bitReflect_of_lt hc hm, rem_shift_xor y hm (bitReflect_lt m c)]

omit hp hpl in
theorem reflStep_iterate_lt (n : Nat) {r : Nat} (hr : r < 2 ^ d) :
    (reflStep (bitReflect d (p % 2 ^ d)))^[n] r < 2 ^ d := by
  induction n generalizing r with
  | zero => exact hr
  | succ n ih => exact ih (reflStep_lt hr)

/-- **A CRC over a list of chunks**: the reflected register ends holding the reflected
remainder of its start, shifted above the message, plus the message, augmented by `d` zero
bits. -/
theorem crc_chunks {m : Nat} (hm : m ≤ d) {cs : List Nat} (hcs : ∀ c ∈ cs, c < 2 ^ m)
    {r y : Nat} (hr : r < 2 ^ d) (hry : bitReflect d r = rem d p y) :
    bitReflect d (cs.foldl (fun r c => (reflStep (bitReflect d (p % 2 ^ d)))^[m] (r ^^^ c)) r) =
      rem d p (y * 2 ^ (m * cs.length) ^^^ reflMsg m cs * 2 ^ d) := by
  induction cs generalizing r y with
  | nil => simp [reflMsg, hry]
  | cons c cs ih =>
    have hc : c < 2 ^ m := hcs c (List.mem_cons_self ..)
    have hcd : c < 2 ^ d := Nat.lt_of_lt_of_le hc (Nat.pow_le_pow_right (by omega) hm)
    rw [List.foldl_cons, ih (fun c' h => hcs c' (List.mem_cons_of_mem c h))
      (reflStep_iterate_lt m (Nat.xor_lt_two_pow hr hcd)) (crc_chunk hp hpl hm hr hc hry),
      reflMsg_cons, xor_mul_two_pow, xor_mul_two_pow]
    have hy : y * 2 ^ m * 2 ^ (m * cs.length) = y * 2 ^ (m * (c :: cs).length) := by
      rw [Nat.mul_assoc, ← Nat.pow_add, List.length_cons, Nat.mul_succ, Nat.add_comm m]
    have hc' : bitReflect m c * 2 ^ d * 2 ^ (m * cs.length) =
        bitReflect m c * 2 ^ (m * cs.length) * 2 ^ d := by
      rw [Nat.mul_assoc, Nat.mul_assoc, Nat.mul_comm (2 ^ d)]
    rw [hy, hc', Nat.xor_assoc]

end Register

end Gf2
