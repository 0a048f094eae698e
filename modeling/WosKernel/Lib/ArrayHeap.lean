import Mathlib

/-! # Binary heaps laid out in an array

Position `i` of an array has children `2 * i + 1` and `2 * i + 2`, and parent `(i - 1) / 2`.
The array `a` holds a min-heap on its first `n` positions for a key `key` when every position
is at or after its parent (`Ordered`).

A sift repairs one position `k` that is out of place (`HoleAt`): either the entry there is
before its parent, and swapping it up keeps `UpOrder` until it stops (`UpOrder.swap`,
`UpOrder.finish`), or it is after a child, and swapping it with its least child keeps
`DownOrder` (`DownOrder.swap`, `DownOrder.finish`).

`IsAnc i j` says `i` is `j` or one of its ancestors.  In an ordered heap every ancestor is at
or before its descendants (`Ordered.anc_le`), and the positions below `i` split into `i` and the
positions below its two children (`card_below`), which bounds a search down the tree.
-/

namespace ArrayHeap

/-- The parent of position `i`; the root `0` is its own. -/
def parent (i : Nat) : Nat := (i - 1) / 2

theorem parent_lt {i : Nat} (h : 0 < i) : parent i < i := by unfold parent; omega

@[simp] theorem parent_left (i : Nat) : parent (2 * i + 1) = i := by unfold parent; omega

@[simp] theorem parent_right (i : Nat) : parent (2 * i + 2) = i := by unfold parent; omega

/-- A position with parent `p` is one of its two children. -/
theorem eq_child_of_parent {c p : Nat} (hc : 0 < c) (h : parent c = p) :
    c = 2 * p + 1 ∨ c = 2 * p + 2 := by
  unfold parent at h; omega

theorem lt_of_parent_eq {c p : Nat} (hc : 0 < c) (h : parent c = p) : p < c := by
  unfold parent at h; omega

section Order

variable {α β : Type*} [LinearOrder β] (key : α → β)

/-- The first `n` positions of `a` are a min-heap for `key`. -/
def Ordered (a : Nat → α) (n : Nat) : Prop :=
  ∀ i, 0 < i → i < n → key (a (parent i)) ≤ key (a i)

/-- A heap with position `k` out of place: every pair away from `k` is in order, and `k`'s
children are at or after `k`'s parent. -/
structure HoleAt (a : Nat → α) (n k : Nat) : Prop where
  off : ∀ i, 0 < i → i < n → i ≠ k → parent i ≠ k → key (a (parent i)) ≤ key (a i)
  grand : 0 < k → ∀ c, 0 < c → c < n → parent c = k → key (a (parent k)) ≤ key (a c)

/-- What a step up needs: every pair but `k` and its parent is in order, and `k`'s children
are at or after `k`'s parent. -/
structure UpOrder (a : Nat → α) (n k : Nat) : Prop where
  except : ∀ i, 0 < i → i < n → i ≠ k → key (a (parent i)) ≤ key (a i)
  grand : 0 < k → ∀ c, 0 < c → c < n → parent c = k → key (a (parent k)) ≤ key (a c)

/-- What a step down needs: every pair but `k` and its children is in order, and `k`'s
children are at or after `k`'s parent. -/
structure DownOrder (a : Nat → α) (n k : Nat) : Prop where
  except : ∀ i, 0 < i → i < n → parent i ≠ k → key (a (parent i)) ≤ key (a i)
  grand : 0 < k → ∀ c, 0 < c → c < n → parent c = k → key (a (parent k)) ≤ key (a c)

variable {key} {a b : Nat → α} {n k : Nat}

/-- An array that agrees with a heap on its first `n` positions holds a heap. -/
theorem Ordered.of_agree {key' : α → β} {m : Nat} (h : Ordered key a m) (hn : n ≤ m)
    (hb : ∀ i, i < n → key' (b i) = key (a i)) : Ordered key' b n := by
  intro i hi0 hi
  have hp := parent_lt hi0
  rw [hb i hi, hb (parent i) (by omega)]
  exact h i hi0 (by omega)

/-- An array that agrees with a heap away from `k` holds a heap with a hole at `k`. -/
theorem Ordered.holeAt {key' : α → β} {m : Nat} (h : Ordered key a m)
    (hb : ∀ i, i < n → i ≠ k → i < m ∧ key' (b i) = key (a i)) : HoleAt key' b n k where
  off := by
    intro i hi0 hi hik hpk
    have hp := parent_lt hi0
    rw [(hb i hi hik).2, (hb (parent i) (by omega) hpk).2]
    exact h i hi0 (hb i hi hik).1
  grand := by
    intro hk c hc0 hc hpc
    have hkc := lt_of_parent_eq hc0 hpc
    have hck := (hb c hc (by omega)).1
    have hpk := parent_lt hk
    rw [(hb c hc (by omega)).2, (hb (parent k) (by omega) (by omega)).2]
    have h1 := h k hk (by omega)
    have h2 := h c hc0 hck
    rw [hpc] at h2
    exact le_trans h1 h2

/-- A heap with one more entry at its end only has to sift that entry up. -/
theorem Ordered.upOrder_push {key' : α → β} (h : Ordered key a n)
    (hb : ∀ i, i < n → key' (b i) = key (a i)) : UpOrder key' b (n + 1) n where
  except := by
    intro i hi0 hi hin
    exact h.of_agree (Nat.le_refl n) hb i hi0 (by omega)
  grand := by
    intro _ c hc0 hc hpc
    have := lt_of_parent_eq hc0 hpc
    omega

/-- An ordered heap has a hole wherever one looks. -/
theorem Ordered.holeAt_self (h : Ordered key a n) (k : Nat) : HoleAt key a n k :=
  h.holeAt (fun _ hi _ => ⟨hi, rfl⟩)

/-- An entry before its parent only has to go up. -/
theorem HoleAt.up (h : HoleAt key a n k) (hk : 0 < k) (hlt : key (a k) < key (a (parent k))) :
    UpOrder key a n k where
  except := by
    intro i hi0 hi hik
    by_cases hpi : parent i = k
    · rw [hpi]
      exact le_of_lt (lt_of_lt_of_le hlt (h.grand hk i hi0 hi hpi))
    · exact h.off i hi0 hi hik hpi
  grand := h.grand

/-- An entry at or after its parent only has to go down. -/
theorem HoleAt.down (h : HoleAt key a n k) (hge : 0 < k → key (a (parent k)) ≤ key (a k)) :
    DownOrder key a n k where
  except := by
    intro i hi0 hi hpi
    by_cases hik : i = k
    · subst hik
      exact hge hi0
    · exact h.off i hi0 hi hik hpi
  grand := h.grand

theorem comp_swap_left (a : Nat → α) (i j : Nat) : (a ∘ Equiv.swap i j) i = a j := by
  simp

theorem comp_swap_right (a : Nat → α) (i j : Nat) : (a ∘ Equiv.swap i j) j = a i := by
  simp

theorem comp_swap_of_ne (a : Nat → α) {i j x : Nat} (hi : x ≠ i) (hj : x ≠ j) :
    (a ∘ Equiv.swap i j) x = a x := by
  simp [Equiv.swap_apply_of_ne_of_ne hi hj]

/-- A swap of two of the first `n` positions keeps them among the first `n`. -/
theorem swap_lt {i j k : Nat} (hi : i < n) (hj : j < n) (hk : k < n) : Equiv.swap i j k < n := by
  rw [Equiv.swap_apply_def]
  split
  · exact hj
  · split
    · exact hi
    · exact hk

/-- **A step up**: swapping an entry with a parent it is before moves the hole to the
parent. -/
theorem UpOrder.swap (h : UpOrder key a n k) (hk : 0 < k) (hkn : k < n)
    (hlt : key (a k) < key (a (parent k))) :
    UpOrder key (a ∘ Equiv.swap k (parent k)) n (parent k) := by
  have hpk := parent_lt hk
  set p := parent k with hp
  have hpp : 0 < p → key (a (parent p)) ≤ key (a p) := fun hp0 =>
    h.except p hp0 (by omega) (by omega)
  constructor
  · intro i hi0 hi hip
    by_cases hik : i = k
    · subst hik
      rw [← hp, comp_swap_left, comp_swap_right]
      exact le_of_lt hlt
    · rw [comp_swap_of_ne _ hik hip]
      by_cases hpi : parent i = k
      · rw [hpi, comp_swap_left]
        exact h.grand hk i hi0 hi hpi
      · by_cases hpip : parent i = p
        · rw [hpip, comp_swap_right]
          have := h.except i hi0 hi hik
          rw [hpip] at this
          exact le_trans (le_of_lt hlt) this
        · rw [comp_swap_of_ne _ hpi hpip]
          exact h.except i hi0 hi hik
  · intro hp0 c hc0 hc hpc
    have hpp' : parent p ≠ k := by have := parent_lt hp0; omega
    have hpp'' : parent p ≠ p := by have := parent_lt hp0; omega
    rw [comp_swap_of_ne _ hpp' hpp'']
    by_cases hck : c = k
    · subst hck
      rw [comp_swap_left]
      exact hpp hp0
    · have hcp : c ≠ p := by have := lt_of_parent_eq hc0 hpc; omega
      rw [comp_swap_of_ne _ hck hcp]
      have := h.except c hc0 hc hck
      rw [hpc] at this
      exact le_trans (hpp hp0) this

/-- The entry that stopped going up is in place. -/
theorem UpOrder.finish (h : UpOrder key a n k)
    (hstop : 0 < k → key (a (parent k)) ≤ key (a k)) : Ordered key a n := by
  intro i hi0 hi
  by_cases hik : i = k
  · subst hik
    exact hstop hi0
  · exact h.except i hi0 hi hik

/-- **A step down**: swapping an entry with its least child, which is before it, moves the
hole to that child. -/
theorem DownOrder.swap (h : DownOrder key a n k) {s : Nat} (hs0 : 0 < s) (hsn : s < n)
    (hps : parent s = k) (hlt : key (a s) < key (a k))
    (hmin : ∀ c, 0 < c → c < n → parent c = k → key (a s) ≤ key (a c)) :
    DownOrder key (a ∘ Equiv.swap k s) n s := by
  have hks := lt_of_parent_eq hs0 hps
  constructor
  · intro i hi0 hi hpi
    by_cases his : i = s
    · subst his
      rw [hps, comp_swap_left, comp_swap_right]
      exact le_of_lt hlt
    · by_cases hik : i = k
      · subst hik
        have hpk := parent_lt hi0
        rw [comp_swap_left, comp_swap_of_ne _ (by omega) (by omega)]
        exact h.grand hi0 s hs0 hsn hps
      · rw [comp_swap_of_ne _ hik his]
        by_cases hpk : parent i = k
        · rw [hpk, comp_swap_left]
          exact hmin i hi0 hi hpk
        · rw [comp_swap_of_ne _ hpk hpi]
          exact h.except i hi0 hi hpk
  · intro _ c hc0 hc hpc
    have hsc := lt_of_parent_eq hc0 hpc
    rw [hps, comp_swap_left, comp_swap_of_ne _ (by omega) (by omega)]
    have := h.except c hc0 hc (by omega)
    rwa [hpc] at this

/-- The entry that stopped going down is in place. -/
theorem DownOrder.finish (h : DownOrder key a n k)
    (hstop : ∀ c, 0 < c → c < n → parent c = k → key (a k) ≤ key (a c)) : Ordered key a n := by
  intro i hi0 hi
  by_cases hpi : parent i = k
  · rw [hpi]
    exact hstop i hi0 hi hpi
  · exact h.except i hi0 hi hpi

end Order

/-! ## Ancestors -/

/-- `i` is `j` or an ancestor of `j`. -/
inductive IsAnc : Nat → Nat → Prop
  | refl (i : Nat) : IsAnc i i
  | left {i j : Nat} : IsAnc (2 * i + 1) j → IsAnc i j
  | right {i j : Nat} : IsAnc (2 * i + 2) j → IsAnc i j

theorem IsAnc.le {i j : Nat} (h : IsAnc i j) : i ≤ j := by
  induction h with
  | refl => exact Nat.le_refl _
  | left _ ih => omega
  | right _ ih => omega

/-- Below an ancestor of `p` are `p`'s children. -/
theorem IsAnc.child {i p c : Nat} (h : IsAnc i p) (hc : 0 < c) (hpc : parent c = p) :
    IsAnc i c := by
  induction h with
  | refl p =>
    rcases eq_child_of_parent hc hpc with rfl | rfl
    · exact .left (.refl _)
    · exact .right (.refl _)
  | left _ ih => exact .left (ih hpc)
  | right _ ih => exact .right (ih hpc)

theorem zero_isAnc (j : Nat) : IsAnc 0 j := by
  induction j using Nat.strong_induction_on with
  | _ j ih =>
    rcases Nat.eq_zero_or_pos j with rfl | hj
    · exact .refl 0
    · exact (ih (parent j) (parent_lt hj)).child hj rfl

/-- The ancestors of `j` are the prefixes of `j + 1` in binary. -/
theorem IsAnc.exists_div {i j : Nat} (h : IsAnc i j) : ∃ k, (j + 1) / 2 ^ k = i + 1 := by
  induction h with
  | refl i => exact ⟨0, by simp⟩
  | left _ ih =>
    obtain ⟨k, hk⟩ := ih
    exact ⟨k + 1, by rw [Nat.pow_succ, ← Nat.div_div_eq_div_mul, hk]; omega⟩
  | right _ ih =>
    obtain ⟨k, hk⟩ := ih
    exact ⟨k + 1, by rw [Nat.pow_succ, ← Nat.div_div_eq_div_mul, hk]; omega⟩

/-- No position is below both children of one parent. -/
theorem not_isAnc_both (i j : Nat) : ¬ (IsAnc (2 * i + 1) j ∧ IsAnc (2 * i + 2) j) := by
  rintro ⟨hl, hr⟩
  obtain ⟨k, hk⟩ := hl.exists_div
  obtain ⟨m, hm⟩ := hr.exists_div
  rcases Nat.lt_trichotomy k m with hkm | rfl | hkm
  · -- the deeper prefix is a prefix of the shallower one, so at most half of it
    have : (j + 1) / 2 ^ m = (2 * i + 2) / 2 ^ (m - k) := by
      rw [← hk, Nat.div_div_eq_div_mul, ← Nat.pow_add, Nat.add_sub_cancel' (le_of_lt hkm)]
    have hpow : 2 ≤ 2 ^ (m - k) :=
      calc 2 = 2 ^ 1 := rfl
        _ ≤ 2 ^ (m - k) := Nat.pow_le_pow_right (by omega) (by omega)
    have hle : (2 * i + 2) / 2 ^ (m - k) ≤ (2 * i + 2) / 2 := Nat.div_le_div_left hpow (by omega)
    omega
  · omega
  · have : (j + 1) / 2 ^ k = (2 * i + 3) / 2 ^ (k - m) := by
      rw [← hm, Nat.div_div_eq_div_mul, ← Nat.pow_add, Nat.add_sub_cancel' (le_of_lt hkm)]
    have hpow : 2 ≤ 2 ^ (k - m) :=
      calc 2 = 2 ^ 1 := rfl
        _ ≤ 2 ^ (k - m) := Nat.pow_le_pow_right (by omega) (by omega)
    have hle : (2 * i + 3) / 2 ^ (k - m) ≤ (2 * i + 3) / 2 := Nat.div_le_div_left hpow (by omega)
    omega

section Below

open Classical in
/-- The positions below `i` among the first `n`. -/
noncomputable def below (n i : Nat) : Finset Nat := (Finset.range n).filter (IsAnc i ·)

theorem mem_below {n i j : Nat} : j ∈ below n i ↔ j < n ∧ IsAnc i j := by
  simp [below]

/-- **The positions below `i` are `i` and those below its children**, which share none. -/
theorem card_below {n i : Nat} (hi : i < n) :
    (below n i).card = (below n (2 * i + 1)).card + (below n (2 * i + 2)).card + 1 := by
  have hsplit : below n i = insert i (below n (2 * i + 1) ∪ below n (2 * i + 2)) := by
    ext j
    simp only [Finset.mem_insert, Finset.mem_union, mem_below]
    constructor
    · rintro ⟨hj, hij⟩
      cases hij with
      | refl => exact .inl rfl
      | left h => exact .inr (.inl ⟨hj, h⟩)
      | right h => exact .inr (.inr ⟨hj, h⟩)
    · rintro (rfl | ⟨hj, h⟩ | ⟨hj, h⟩)
      · exact ⟨hi, .refl _⟩
      · exact ⟨hj, .left h⟩
      · exact ⟨hj, .right h⟩
  have hnot : i ∉ below n (2 * i + 1) ∪ below n (2 * i + 2) := by
    simp only [Finset.mem_union, mem_below, not_or]
    exact ⟨fun h => by have := h.2.le; omega, fun h => by have := h.2.le; omega⟩
  have hdisj : Disjoint (below n (2 * i + 1)) (below n (2 * i + 2)) := by
    rw [Finset.disjoint_left]
    intro j hl hr
    exact not_isAnc_both i j ⟨(mem_below.mp hl).2, (mem_below.mp hr).2⟩
  rw [hsplit, Finset.card_insert_of_notMem hnot, Finset.card_union_of_disjoint hdisj]

theorem card_below_pos {n i : Nat} (hi : i < n) : 0 < (below n i).card := by
  rw [card_below hi]
  omega

theorem card_below_le (n i : Nat) : (below n i).card ≤ n := by
  calc (below n i).card ≤ (Finset.range n).card :=
        Finset.card_le_card (fun j hj => Finset.mem_range.mpr (mem_below.mp hj).1)
    _ = n := Finset.card_range n

theorem below_eq_empty {n i : Nat} (hi : n ≤ i) : below n i = ∅ := by
  ext j
  simp only [mem_below, Finset.notMem_empty, iff_false, not_and]
  intro hj hij
  have := hij.le
  omega

end Below

section Ancestors

variable {α β : Type*} [LinearOrder β] {key : α → β} {a : Nat → α} {n : Nat}

/-- **In a heap an ancestor is at or before its descendants.** -/
theorem Ordered.anc_le (h : Ordered key a n) {i j : Nat} (hij : IsAnc i j) (hj : j < n) :
    key (a i) ≤ key (a j) := by
  induction hij with
  | refl => exact le_refl _
  | @left i j hc ih =>
    have := hc.le
    exact le_trans (by simpa using h (2 * i + 1) (by omega) (by omega)) (ih hj)
  | @right i j hc ih =>
    have := hc.le
    exact le_trans (by simpa using h (2 * i + 2) (by omega) (by omega)) (ih hj)

theorem Ordered.root_le (h : Ordered key a n) {j : Nat} (hj : j < n) : key (a 0) ≤ key (a j) :=
  h.anc_le (zero_isAnc j) hj

end Ancestors

end ArrayHeap
