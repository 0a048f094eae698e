import Mathlib

/-! # Aligned power-of-two blocks

A block of order `k` at `h` holds the `2 ^ k` indices from `h` on.  In a buddy system
every block is *aligned*, `2 ^ k ∣ h`, and aligned blocks are laminar: two that share an
index are nested (`block_subset_of_mem`), so two blocks of a partition are equal or
disjoint.  A block of order `j + 1` is its two halves of order `j` (`block_succ`), and a
block of order `k` at `h` and its *buddy* at `h ^^^ 2 ^ k` are the two halves of the block
of order `k + 1` at the lower of the two (`buddy_cases`, `block_min_buddy`): this is what
splitting a block and coalescing two buddies rest on.
-/

namespace Buddy

/-- The indices of the block of order `k` at `h`. -/
def block (h k : ℕ) : Set ℕ := Set.Ico h (h + 2 ^ k)

@[simp] theorem mem_block {h k p : ℕ} : p ∈ block h k ↔ h ≤ p ∧ p < h + 2 ^ k := Set.mem_Ico

instance (h k p : ℕ) : Decidable (p ∈ block h k) := decidable_of_iff _ mem_block.symm

theorem head_mem_block (h k : ℕ) : h ∈ block h k := by
  simp [Nat.two_pow_pos k]

/-- A block of order 0 is its head. -/
theorem block_zero (h : ℕ) : block h 0 = {h} := by
  ext p
  rw [mem_block, Set.mem_singleton_iff, pow_zero]
  omega

/-- **Laminarity**: two aligned blocks that share an index are nested, the one of lower
order inside the other. -/
theorem block_subset_of_mem {h h' k k' p : ℕ} (hk : k ≤ k') (ha : 2 ^ k ∣ h)
    (ha' : 2 ^ k' ∣ h') (hp : p ∈ block h k) (hp' : p ∈ block h' k') :
    block h k ⊆ block h' k' := by
  obtain ⟨c, hc⟩ : 2 ^ k ∣ 2 ^ k' := pow_dvd_pow 2 hk
  obtain ⟨b, rfl⟩ := ha
  obtain ⟨a, rfl⟩ := ha'
  have hA : 0 < 2 ^ k := Nat.two_pow_pos k
  simp only [mem_block, hc] at hp hp' ⊢
  -- in units of `2 ^ k`, the lower block is `[b, b + 1)` and the upper `[c * a, c * a + c)`
  have hlo : c * a ≤ b := by
    have : 2 ^ k * (c * a) < 2 ^ k * (b + 1) := by
      calc 2 ^ k * (c * a) = 2 ^ k * c * a := by ring
        _ ≤ p := hp'.1
        _ < 2 ^ k * b + 2 ^ k := hp.2
        _ = 2 ^ k * (b + 1) := by ring
    have := Nat.lt_of_mul_lt_mul_left this
    omega
  have hhi : b + 1 ≤ c * a + c := by
    have : 2 ^ k * b < 2 ^ k * (c * a + c) := by
      calc 2 ^ k * b ≤ p := hp.1
        _ < 2 ^ k * c * a + 2 ^ k * c := hp'.2
        _ = 2 ^ k * (c * a + c) := by ring
    exact Nat.lt_of_mul_lt_mul_left this
  intro q hq
  rw [mem_block] at hq ⊢
  rw [hc]
  constructor
  · calc 2 ^ k * c * a = 2 ^ k * (c * a) := by ring
      _ ≤ 2 ^ k * b := Nat.mul_le_mul_left _ hlo
      _ ≤ q := hq.1
  · calc q < 2 ^ k * b + 2 ^ k := hq.2
      _ = 2 ^ k * (b + 1) := by ring
      _ ≤ 2 ^ k * (c * a + c) := Nat.mul_le_mul_left _ hhi
      _ = 2 ^ k * c * a + 2 ^ k * c := by ring

/-- Two aligned blocks whose heads lie outside each other's block are disjoint. -/
theorem disjoint_of_heads {h h' k k' : ℕ} (ha : 2 ^ k ∣ h) (ha' : 2 ^ k' ∣ h')
    (hh : h ∉ block h' k') (hh' : h' ∉ block h k) : Disjoint (block h k) (block h' k') := by
  rw [Set.disjoint_left]
  intro p hp hp'
  rcases le_total k k' with hk | hk
  · exact hh (block_subset_of_mem hk ha ha' hp hp' (head_mem_block h k))
  · exact hh' (block_subset_of_mem hk ha' ha hp' hp (head_mem_block h' k'))

/-! ## Halves and buddies -/

/-- A block of order `j + 1` is its lower and its upper half. -/
theorem block_succ (h j : ℕ) : block h (j + 1) = block h j ∪ block (h + 2 ^ j) j := by
  ext p
  simp only [mem_block, Set.mem_union, pow_succ]
  omega

theorem disjoint_halves (h j : ℕ) : Disjoint (block h j) (block (h + 2 ^ j) j) := by
  rw [Set.disjoint_left]
  intro p hp hp'
  simp only [mem_block] at hp hp'
  omega

theorem dvd_of_dvd_succ {h j : ℕ} (ha : 2 ^ (j + 1) ∣ h) : 2 ^ j ∣ h :=
  (pow_dvd_pow 2 (Nat.le_succ j)).trans ha

theorem dvd_add_half {h j : ℕ} (ha : 2 ^ (j + 1) ∣ h) : 2 ^ j ∣ h + 2 ^ j :=
  Nat.dvd_add (dvd_of_dvd_succ ha) (dvd_refl _)

theorem block_subset_succ (h j : ℕ) : block h j ⊆ block h (j + 1) := by
  rw [block_succ]
  exact Set.subset_union_left

theorem upper_half_subset (h j : ℕ) : block (h + 2 ^ j) j ⊆ block h (j + 1) := by
  rw [block_succ]
  exact Set.subset_union_right

theorem xor_two_pow (h k : ℕ) : h ^^^ 2 ^ k = 2 ^ k * (h / 2 ^ k ^^^ 1) + h % 2 ^ k := by
  have hdiv : (h ^^^ 2 ^ k) / 2 ^ k = h / 2 ^ k ^^^ 1 := by
    rw [Nat.xor_div_two_pow, Nat.div_self (Nat.two_pow_pos k)]
  have hmod : (h ^^^ 2 ^ k) % 2 ^ k = h % 2 ^ k := by
    rw [Nat.xor_mod_two_pow, Nat.mod_self, Nat.xor_zero]
  rw [← hdiv, ← hmod, Nat.div_add_mod]

theorem xor_two_pow_of_dvd {h k : ℕ} (ha : 2 ^ k ∣ h) : h ^^^ 2 ^ k = 2 ^ k * (h / 2 ^ k ^^^ 1) := by
  rw [xor_two_pow, Nat.mod_eq_zero_of_dvd ha, Nat.add_zero]

theorem xor_one_eq (m : ℕ) : m ^^^ 1 = 2 * (m / 2) + (m + 1) % 2 := by
  have hdiv : (m ^^^ 1) / 2 = m / 2 := by
    rw [Nat.xor_div_two]
    simp
  have hmod : (m ^^^ 1) % 2 = (m + 1) % 2 := Nat.xor_mod_two_eq
  rw [← hdiv, ← hmod, Nat.div_add_mod]

/-- **The buddy of an aligned block**: either `h` is the lower half of the block of order
`k + 1` holding it and its buddy the upper one, or the other way round. -/
theorem buddy_cases {h k : ℕ} (ha : 2 ^ k ∣ h) :
    (2 ^ (k + 1) ∣ h ∧ h ^^^ 2 ^ k = h + 2 ^ k) ∨
      (2 ^ (k + 1) ∣ h ^^^ 2 ^ k ∧ h = (h ^^^ 2 ^ k) + 2 ^ k) := by
  obtain ⟨m, rfl⟩ := ha
  rw [xor_two_pow_of_dvd (Dvd.intro m rfl), Nat.mul_div_cancel_left m (Nat.two_pow_pos k),
    xor_one_eq, pow_succ]
  rcases Nat.even_or_odd' m with ⟨q, rfl | rfl⟩
  · -- `m = 2q`: the block is the lower half
    left
    have hq : (2 * q + 1) % 2 = 1 := by omega
    rw [hq, Nat.mul_div_cancel_left q (by norm_num)]
    exact ⟨⟨q, by ring⟩, by ring⟩
  · -- `m = 2q + 1`: the block is the upper half
    right
    have hq : (2 * q + 1 + 1) % 2 = 0 := by omega
    have hd : (2 * q + 1) / 2 = q := by omega
    rw [hq, hd]
    exact ⟨⟨q, by ring⟩, by ring⟩

theorem min_buddy_dvd {h k : ℕ} (ha : 2 ^ k ∣ h) : 2 ^ (k + 1) ∣ min (h ^^^ 2 ^ k) h := by
  rcases buddy_cases ha with ⟨hd, he⟩ | ⟨hd, he⟩
  · rw [he, min_eq_right (Nat.le_add_right _ _)]
    exact hd
  · rw [min_eq_left (by omega)]
    exact hd

/-- A block and its buddy make up the block of order `k + 1` at the lower of the two. -/
theorem block_min_buddy {h k : ℕ} (ha : 2 ^ k ∣ h) :
    block (min (h ^^^ 2 ^ k) h) (k + 1) = block h k ∪ block (h ^^^ 2 ^ k) k := by
  rcases buddy_cases ha with ⟨-, he⟩ | ⟨-, he⟩
  · rw [he, min_eq_right (Nat.le_add_right _ _), block_succ]
  · rw [min_eq_left (by omega), block_succ, ← he, Set.union_comm]

theorem disjoint_buddy {h k : ℕ} (ha : 2 ^ k ∣ h) :
    Disjoint (block h k) (block (h ^^^ 2 ^ k) k) := by
  rcases buddy_cases ha with ⟨-, he⟩ | ⟨-, he⟩
  · rw [he]
    exact disjoint_halves h k
  · conv_lhs => rw [he]
    exact (disjoint_halves _ k).symm

/-- An aligned block's buddy starts at another page. -/
theorem buddy_ne {h k : ℕ} (ha : 2 ^ k ∣ h) : h ^^^ 2 ^ k ≠ h := fun he =>
  Set.disjoint_left.mp (disjoint_buddy ha) (head_mem_block h k)
    (by rw [he]; exact head_mem_block h k)

/-! ## Loops over a block -/

/-- A loop over the `2 ^ k` offsets of a block checks every index of it. -/
theorem all_range_iff {h k : ℕ} (f : ℕ → Bool) :
    ((List.range (2 ^ k)).all fun i => f (h + i)) = true ↔ ∀ p ∈ block h k, f p = true := by
  rw [List.all_eq_true]
  constructor
  · intro hall p hp
    rw [mem_block] at hp
    have := hall (p - h) (List.mem_range.mpr (by omega))
    rwa [Nat.add_sub_cancel' hp.1] at this
  · intro hall i hi
    rw [List.mem_range] at hi
    exact hall (h + i) (mem_block.mpr ⟨Nat.le_add_right h i, by omega⟩)

/-- A search over the `2 ^ k` offsets of a block finds an index of it. -/
theorem any_range_iff {h k : ℕ} (f : ℕ → Bool) :
    ((List.range (2 ^ k)).any fun i => f (h + i)) = true ↔ ∃ p ∈ block h k, f p = true := by
  rw [List.any_eq_true]
  constructor
  · rintro ⟨i, hi, hf⟩
    rw [List.mem_range] at hi
    exact ⟨h + i, mem_block.mpr ⟨Nat.le_add_right h i, by omega⟩, hf⟩
  · rintro ⟨p, hp, hf⟩
    rw [mem_block] at hp
    refine ⟨p - h, List.mem_range.mpr (by omega), ?_⟩
    rwa [Nat.add_sub_cancel' hp.1]

/-- A count over the offsets of a range is the number of its indices that pass. -/
theorem countP_range_add (f : ℕ → Bool) (h : ℕ) : ∀ m,
    (List.range m).countP (fun i => f (h + i)) =
      ((Finset.Ico h (h + m)).filter fun p => f p = true).card
  | 0 => by simp
  | m + 1 => by
    rw [List.range_succ, List.countP_append, countP_range_add f h m, ← Nat.add_assoc,
      Nat.Ico_succ_right_eq_insert_Ico (Nat.le_add_right h m), Finset.filter_insert]
    by_cases hf : f (h + m) = true
    · rw [if_pos hf, Finset.card_insert_of_notMem (by simp), List.countP_singleton, if_pos hf]
    · rw [if_neg hf, List.countP_singleton, if_neg hf, Nat.add_zero]

/-! ## Counting over a block -/

/-- An update that makes a predicate hold on a block of `[0, n)` where it failed, and
changes it nowhere else, counts the block's `2 ^ k` indices more. -/
theorem card_filter_of_block {n h k : ℕ} {P Q : ℕ → Prop} [DecidablePred P] [DecidablePred Q]
    (hfit : h + 2 ^ k ≤ n) (hin : ∀ p ∈ block h k, Q p ∧ ¬ P p)
    (hout : ∀ p ∉ block h k, (Q p ↔ P p)) :
    ((Finset.range n).filter Q).card = ((Finset.range n).filter P).card + 2 ^ k := by
  have hset : (Finset.range n).filter Q = (Finset.range n).filter P ∪ Finset.Ico h (h + 2 ^ k) := by
    ext p
    rw [Finset.mem_union, Finset.mem_filter, Finset.mem_filter, Finset.mem_range, Finset.mem_Ico]
    by_cases hp : p ∈ block h k
    · have hb := mem_block.mp hp
      exact ⟨fun _ => Or.inr hb, fun _ => ⟨by omega, (hin p hp).1⟩⟩
    · rw [hout p hp]
      have hb : ¬ (h ≤ p ∧ p < h + 2 ^ k) := fun hb => hp (mem_block.mpr hb)
      simp only [hb, or_false]
  have hdisj : Disjoint ((Finset.range n).filter P) (Finset.Ico h (h + 2 ^ k)) := by
    rw [Finset.disjoint_right]
    intro p hp hP
    exact (hin p (mem_block.mpr (Finset.mem_Ico.mp hp))).2 (Finset.mem_filter.mp hP).2
  rw [hset, Finset.card_union_of_disjoint hdisj, Nat.card_Ico, Nat.add_sub_cancel_left]

/-- Changing the value at one index of `[0, n)` changes the count of the indices where a
predicate holds by what the change does at that index. -/
theorem card_filter_update {α : Type*} {P : α → Prop} [DecidablePred P] {n h : ℕ} {m : ℕ → α}
    {s : α} (hh : h < n) :
    ((Finset.range n).filter fun p => P (Function.update m h s p)).card +
        (if P (m h) then 1 else 0) =
      ((Finset.range n).filter fun p => P (m p)).card + (if P s then 1 else 0) := by
  have hfit : h + 2 ^ 0 ≤ n := by rw [pow_zero]; omega
  have hmem : ∀ p ∈ block h 0, p = h := fun p hp => by rwa [block_zero] at hp
  have hout : ∀ p ∉ block h 0, (P (Function.update m h s p) ↔ P (m p)) := fun p hp => by
    rw [Function.update_of_ne fun e : p = h => hp (e ▸ head_mem_block h 0)]
  have hsame : (P s ↔ P (m h)) → ((Finset.range n).filter fun p => P (Function.update m h s p)) =
      (Finset.range n).filter fun p => P (m p) := fun hiff => Finset.filter_congr fun p _ => by
    by_cases hp : p = h
    · subst hp
      rw [Function.update_self]
      exact hiff
    · exact hout p fun hp' => hp (hmem p hp')
  by_cases hs : P s <;> by_cases hm : P (m h)
  · rw [hsame (iff_of_true hs hm), if_pos hs, if_pos hm]
  · have := card_filter_of_block (Q := fun p => P (Function.update m h s p)) (P := fun p => P (m p))
      hfit (fun p hp => by rw [hmem p hp, Function.update_self]; exact ⟨hs, hm⟩) hout
    rw [if_pos hs, if_neg hm, this, pow_zero]
  · have := card_filter_of_block (Q := fun p => P (m p)) (P := fun p => P (Function.update m h s p))
      hfit (fun p hp => by rw [hmem p hp, Function.update_self]; exact ⟨hm, hs⟩)
      fun p hp => (hout p hp).symm
    rw [if_neg hs, if_pos hm, this, pow_zero]
  · rw [hsame (iff_of_false hs hm), if_neg hs, if_neg hm]

end Buddy
