import Mathlib

/-! # One's-complement sums of 16-bit words

The Internet checksum of RFC 1071 is the complement of the one's-complement sum of a byte
string read as 16-bit words in network order (`internetChecksum`).  This module states it
over plain numbers and proves the arithmetic implementations of it rest on:

* the one's-complement sum of words is the representative `canon` of their natural sum
  (`onesSum_eq_canon`), so it can be computed in a wide accumulator whose carries are folded
  back in at the end (`canon_carry`, `carry_carry_lt`);
* exchanging the bytes of every word exchanges the bytes of the sum (`canon_sum_map_swap`),
  so the checksum may be computed over words read least significant byte first and swapped
  once (`swap_complement_canon_sum`);
* a sum that already holds the complement of its representative is the negative zero
  `0xFFFF` (`canon_add_complement`), which is why a string carrying its own checksum checks
  to zero.
-/

namespace OnesComplement

/-- The 16-bit one's-complement sum of two words: add, and carry out of bit 16 back in. -/
def onesAdd (a b : Nat) : Nat := if 65536 ≤ a + b then a + b - 65535 else a + b

/-- The one's-complement sum of words, from zero, left to right. -/
def onesSum (ws : List Nat) : Nat := ws.foldl onesAdd 0

/-- The word a one's-complement sum with natural sum `n` ends on: zero for `n = 0`, and
otherwise the member of `1 .. 0xFFFF` congruent to `n` modulo `0xFFFF`. -/
def canon (n : Nat) : Nat := if n = 0 then 0 else (n - 1) % 65535 + 1

/-- One round of folding a wide sum: what stands above bit 16 added back in. -/
def carry (n : Nat) : Nat := n % 65536 + n / 65536

/-- A 16-bit word with its two bytes exchanged. -/
def swap (w : Nat) : Nat := w % 256 * 256 + w / 256

section Canon

variable {a b c n w : Nat}

@[simp] theorem canon_zero : canon 0 = 0 := rfl

theorem canon_lt : canon n < 65536 := by
  unfold canon
  split <;> omega

theorem canon_eq_zero_iff : canon n = 0 ↔ n = 0 := by
  unfold canon
  split <;> omega

theorem canon_mod : canon n % 65535 = n % 65535 := by
  unfold canon
  split <;> omega

theorem canon_le : canon n ≤ n := by
  unfold canon
  split <;> omega

/-- `canon n` is the one word congruent to `n` that is zero exactly when `n` is. -/
theorem canon_eq_of (hc : c < 65536) (hmod : c % 65535 = n % 65535) (hz : c = 0 ↔ n = 0) :
    canon n = c := by
  unfold canon
  split
  · next hn => exact (hz.mpr hn).symm
  · next hn =>
    have hc0 : c ≠ 0 := fun h => hn (hz.mp h)
    omega

theorem canon_of_lt (h : n < 65536) : canon n = n := canon_eq_of h rfl Iff.rfl

theorem canon_congr (hmod : a % 65535 = b % 65535) (hz : a = 0 ↔ b = 0) : canon a = canon b :=
  (canon_eq_of canon_lt (by rw [canon_mod, hmod]) (canon_eq_zero_iff.trans hz)).symm

/-- Adding a word with end-around carry adds it to the natural sum. -/
theorem onesAdd_canon_of_lt (hw : w < 65536) : onesAdd (canon n) w = canon (n + w) := by
  have hlt : canon n < 65536 := canon_lt
  have hmod : canon n % 65535 = n % 65535 := canon_mod
  have hz : canon n = 0 ↔ n = 0 := canon_eq_zero_iff
  symm
  apply canon_eq_of
  · unfold onesAdd
    split <;> omega
  · unfold onesAdd
    split <;> omega
  · by_cases hn : n = 0
    · subst hn
      simp only [canon_zero, onesAdd, Nat.zero_add, if_neg (show ¬65536 ≤ w by omega)]
    · unfold onesAdd
      split <;> omega

theorem foldl_onesAdd_canon {ws : List Nat} (hws : ∀ w ∈ ws, w < 65536) (s : Nat) :
    ws.foldl onesAdd (canon s) = canon (s + ws.sum) := by
  induction ws generalizing s with
  | nil => simp
  | cons w ws ih =>
    rw [List.foldl_cons, onesAdd_canon_of_lt (hws w List.mem_cons_self),
      ih (fun w' hw' => hws w' (List.mem_cons_of_mem _ hw')), List.sum_cons, Nat.add_assoc]

/-- The one's-complement sum of words is the representative of their natural sum. -/
theorem onesSum_eq_canon {ws : List Nat} (hws : ∀ w ∈ ws, w < 65536) :
    onesSum ws = canon ws.sum := by
  unfold onesSum
  simpa using foldl_onesAdd_canon hws 0

/-- A word that is the complement of the sum's representative makes the sum negative zero. -/
theorem canon_add_complement : canon (n + (65535 - canon n)) = 65535 := by
  have hlt : canon n < 65536 := canon_lt
  have hle : canon n ≤ n := canon_le
  have hmod : canon n % 65535 = n % 65535 := canon_mod
  apply canon_eq_of (by norm_num)
  · omega
  · omega

end Canon

section Carry

variable {n : Nat}

theorem canon_carry : canon (carry n) = canon n := by
  apply canon_congr
  · unfold carry
    omega
  · unfold carry
    omega

/-- Two rounds of folding bring a 32-bit sum below `2 ^ 16`. -/
theorem carry_carry_lt (h : n < 2 ^ 32) : carry (carry n) < 65536 := by
  have hn : n / 65536 < 65536 := by omega
  unfold carry
  omega

end Carry

section Swap

variable {w : Nat} {ws : List Nat}

theorem swap_lt (h : w < 65536) : swap w < 65536 := by
  unfold swap
  omega

theorem swap_eq_zero_iff (h : w < 65536) : swap w = 0 ↔ w = 0 := by
  unfold swap
  omega

/-- Exchanging the bytes of a word multiplies it by `256` modulo `0xFFFF`. -/
theorem swap_mod : swap w % 65535 = 256 * w % 65535 := by
  unfold swap
  omega

/-- Complementing a word complements each of its bytes. -/
theorem swap_complement (h : w < 65536) : swap (65535 - w) = 65535 - swap w := by
  unfold swap
  omega

theorem sum_map_swap_mod :
    (ws.map swap).sum % 65535 = 256 * ws.sum % 65535 := by
  induction ws with
  | nil => rfl
  | cons w ws ih =>
    have hw : swap w % 65535 = 256 * w % 65535 := swap_mod
    simp only [List.map_cons, List.sum_cons]
    omega

theorem swap_div (h : w < 65536) : swap w / 256 = w % 256 := by
  unfold swap
  have hw : w / 256 < 256 := by omega
  rw [Nat.add_comm, Nat.add_mul_div_right _ _ (by norm_num), Nat.div_eq_of_lt hw, Nat.zero_add]

theorem swap_mod_256 (h : w < 65536) : swap w % 256 = w / 256 := by
  unfold swap
  have hw : w / 256 < 256 := by omega
  rw [Nat.add_comm, Nat.add_mul_mod_self_right, Nat.mod_eq_of_lt hw]

theorem swap_byte {b : Nat} (h : b < 256) : swap b = b * 256 := by
  unfold swap
  omega

theorem swap_bytes {b0 b1 : Nat} (h0 : b0 < 256) :
    swap (b0 + b1 * 256) = b0 * 256 + b1 := by
  unfold swap
  omega

theorem sum_map_swap_eq_zero_iff (hws : ∀ w ∈ ws, w < 65536) :
    (ws.map swap).sum = 0 ↔ ws.sum = 0 := by
  simp only [List.sum_eq_zero_iff, List.mem_map, forall_exists_index, and_imp,
    forall_apply_eq_imp_iff₂]
  exact forall₂_congr fun w hw => swap_eq_zero_iff (hws w hw)

/-- The byte order of the words does not matter to a one's-complement sum: swapping every
word swaps the result. -/
theorem canon_sum_map_swap (hws : ∀ w ∈ ws, w < 65536) :
    canon (ws.map swap).sum = swap (canon ws.sum) := by
  apply canon_eq_of (swap_lt canon_lt)
  · rw [swap_mod, sum_map_swap_mod, Nat.mul_mod, canon_mod, ← Nat.mul_mod]
  · rw [swap_eq_zero_iff canon_lt, canon_eq_zero_iff, sum_map_swap_eq_zero_iff hws]

end Swap

/-! ## Byte strings as words -/

/-- A byte string as 16-bit words, most significant byte first, an odd last byte padded
with a zero byte (RFC 1071 §1). -/
def bigEndianWords : List Nat → List Nat
  | [] => []
  | [b] => [b * 256]
  | b0 :: b1 :: bs => (b0 * 256 + b1) :: bigEndianWords bs

/-- A byte string as 16-bit words, least significant byte first, an odd last byte alone. -/
def littleEndianWords : List Nat → List Nat
  | [] => []
  | [b] => [b]
  | b0 :: b1 :: bs => (b0 + b1 * 256) :: littleEndianWords bs

/-- A string with the two elements of every pair exchanged; an odd last element stays. -/
def swapPairs {α : Type} : List α → List α
  | a0 :: a1 :: as => a1 :: a0 :: swapPairs as
  | as => as

/-- RFC 1071's checksum of a byte string: the complement of the one's-complement sum of its
words in network order. -/
def internetChecksum (bs : List Nat) : Nat := 65535 - onesSum (bigEndianWords bs)

section Words

variable {bs bs' : List Nat}

@[simp] theorem littleEndianWords_cons_cons (b0 b1 : Nat) :
    littleEndianWords (b0 :: b1 :: bs) = (b0 + b1 * 256) :: littleEndianWords bs := rfl

theorem littleEndianWords_lt (hbs : ∀ b ∈ bs, b < 256) : ∀ w ∈ littleEndianWords bs, w < 65536 := by
  induction bs using littleEndianWords.induct with
  | case1 => simp [littleEndianWords]
  | case2 b =>
    have := hbs b (by simp)
    simp [littleEndianWords]
    omega
  | case3 b0 b1 bs ih =>
    have h0 := hbs b0 (by simp)
    have h1 := hbs b1 (by simp)
    intro w hw
    rcases List.mem_cons.mp hw with rfl | hw
    · omega
    · exact ih (fun b hb => hbs b (by simp [hb])) w hw

/-- Read in network order, a string's words are its little-endian words byte-swapped. -/
theorem bigEndianWords_eq_map_swap (hbs : ∀ b ∈ bs, b < 256) :
    bigEndianWords bs = (littleEndianWords bs).map swap := by
  induction bs using littleEndianWords.induct with
  | case1 => rfl
  | case2 b =>
    simp only [bigEndianWords, littleEndianWords, List.map_cons, List.map_nil,
      swap_byte (hbs b List.mem_cons_self)]
  | case3 b0 b1 bs ih =>
    simp only [bigEndianWords, littleEndianWords_cons_cons, List.map_cons,
      swap_bytes (hbs b0 List.mem_cons_self), ih (fun b hb => hbs b (by simp [hb]))]

/-- Words of a string of even length never straddle its end. -/
theorem littleEndianWords_append (h : bs.length % 2 = 0) :
    littleEndianWords (bs ++ bs') = littleEndianWords bs ++ littleEndianWords bs' := by
  induction bs using littleEndianWords.induct with
  | case1 => rfl
  | case2 b => simp at h
  | case3 b0 b1 bs ih =>
    simp only [List.length_cons] at h
    simp only [List.cons_append, littleEndianWords_cons_cons, ih (by omega)]

theorem length_littleEndianWords : (littleEndianWords bs).length = (bs.length + 1) / 2 := by
  induction bs using littleEndianWords.induct with
  | case1 => rfl
  | case2 b => simp [littleEndianWords]
  | case3 b0 b1 bs ih =>
    simp only [littleEndianWords_cons_cons, List.length_cons, ih]
    omega

theorem sum_littleEndianWords_le (hbs : ∀ b ∈ bs, b < 256) :
    (littleEndianWords bs).sum ≤ 65535 * ((bs.length + 1) / 2) := by
  have hle : ∀ w ∈ littleEndianWords bs, w ≤ 65535 := fun w hw =>
    Nat.le_of_lt_succ (littleEndianWords_lt hbs w hw)
  have := List.sum_le_card_nsmul _ _ hle
  rw [length_littleEndianWords, smul_eq_mul] at this
  omega

@[simp] theorem length_swapPairs {α : Type} : ∀ l : List α, (swapPairs l).length = l.length
  | [] => rfl
  | [_] => rfl
  | a0 :: a1 :: as => by simp [swapPairs, length_swapPairs as]

theorem map_swapPairs {α β : Type} (f : α → β) : ∀ l : List α,
    (swapPairs l).map f = swapPairs (l.map f)
  | [] => rfl
  | [_] => rfl
  | a0 :: a1 :: as => by simp [swapPairs, map_swapPairs f as]

/-- Read least significant byte first, a string of even length with its pairs exchanged is
the string read in network order. -/
theorem littleEndianWords_swapPairs : ∀ {bs : List Nat}, bs.length % 2 = 0 →
    littleEndianWords (swapPairs bs) = bigEndianWords bs
  | [], _ => rfl
  | [_], h => by simp at h
  | b0 :: b1 :: bs, h => by
    simp only [List.length_cons] at h
    simp only [swapPairs, littleEndianWords_cons_cons, bigEndianWords,
      littleEndianWords_swapPairs (show bs.length % 2 = 0 by omega), Nat.add_comm]

/-- **The checksum from little-endian words.**  Summing a string as little-endian words,
folding, complementing and exchanging the two bytes of the result gives RFC 1071's
checksum. -/
theorem swap_complement_canon_sum (hbs : ∀ b ∈ bs, b < 256) :
    swap (65535 - canon (littleEndianWords bs).sum) = internetChecksum bs := by
  have hlt := littleEndianWords_lt hbs
  have hswap : ∀ w ∈ (littleEndianWords bs).map swap, w < 65536 := by
    simp only [List.mem_map, forall_exists_index, and_imp, forall_apply_eq_imp_iff₂]
    exact fun w hw => swap_lt (hlt w hw)
  rw [internetChecksum, bigEndianWords_eq_map_swap hbs, onesSum_eq_canon hswap,
    canon_sum_map_swap hlt, swap_complement canon_lt]

end Words

end OnesComplement
