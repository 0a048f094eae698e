import Mathlib

/-! # Touching closed intervals of naturals, and swap-remove

A closed interval `[first, last]` of naturals is a pair.  Two intervals *touch* when
they overlap or are adjacent: their union is then again an interval, their hull.  A
set of intervals in which no two touch is the canonical form of a union of intervals,
and adding an interval to it means widening the new one by every interval it touches
and dropping those.  A point that touches the hull of two touching intervals touches
one of them (`touch_hull`), which is why widening never makes an interval already
passed over touch again.

Arrays with a count delete by moving the last element into the freed slot
(`swapRemove`): the result is a permutation of the list with that element erased,
and the slots before the freed one are unchanged.
-/

namespace IntervalMerge

/-- `a` and `b` overlap or are adjacent. -/
def Touch (a b : ℕ × ℕ) : Prop := a.1 ≤ b.2 + 1 ∧ b.1 ≤ a.2 + 1

/-- The smallest interval holding both. -/
def hull (a b : ℕ × ℕ) : ℕ × ℕ := (min a.1 b.1, max a.2 b.2)

theorem Touch.symm {a b : ℕ × ℕ} (h : Touch a b) : Touch b a := ⟨h.2, h.1⟩

theorem touch_comm (a b : ℕ × ℕ) : Touch a b ↔ Touch b a := ⟨Touch.symm, Touch.symm⟩

/-- Two touching intervals make up their hull. -/
theorem Icc_hull {a b : ℕ × ℕ} (h : Touch a b) :
    Set.Icc (hull a b).1 (hull a b).2 = Set.Icc a.1 a.2 ∪ Set.Icc b.1 b.2 := by
  obtain ⟨h₁, h₂⟩ := h
  ext k
  simp only [hull, Set.mem_Icc, Set.mem_union]
  omega

theorem hull_nonempty {a b : ℕ × ℕ} (ha : a.1 ≤ a.2) : (hull a b).1 ≤ (hull a b).2 := by
  simp only [hull]
  omega

/-- **Widening keeps the others apart**: a nonempty interval that touches the hull of
two touching intervals touches one of them. -/
theorem touch_hull {a b c : ℕ × ℕ} (hc : c.1 ≤ c.2) (hab : Touch a b)
    (h : Touch c (hull a b)) : Touch c a ∨ Touch c b := by
  obtain ⟨h₁, h₂⟩ := hab
  obtain ⟨h₃, h₄⟩ := h
  simp only [Touch, hull] at *
  omega

/-! ## The points a list of intervals covers -/

variable {α : Type*} (span : α → ℕ × ℕ)

/-- The points of `[first, last]` over the intervals of `l`, each read through `span`. -/
def covered (l : List α) : Set ℕ := {k | ∃ a ∈ l, k ∈ Set.Icc (span a).1 (span a).2}

@[simp] theorem covered_nil : covered span ([] : List α) = ∅ := by
  simp [covered]

@[simp] theorem covered_cons (a : α) (l : List α) :
    covered span (a :: l) = Set.Icc (span a).1 (span a).2 ∪ covered span l := by
  ext k
  simp [covered]

@[simp] theorem covered_append (l l' : List α) :
    covered span (l ++ l') = covered span l ∪ covered span l' := by
  ext k
  simp only [covered, List.mem_append, Set.mem_ofPred_eq, Set.mem_union]
  constructor
  · rintro ⟨a, ha | ha, hk⟩
    · exact Or.inl ⟨a, ha, hk⟩
    · exact Or.inr ⟨a, ha, hk⟩
  · rintro (⟨a, ha, hk⟩ | ⟨a, ha, hk⟩)
    · exact ⟨a, Or.inl ha, hk⟩
    · exact ⟨a, Or.inr ha, hk⟩

theorem covered_perm {l l' : List α} (h : l.Perm l') : covered span l = covered span l' := by
  ext k
  simp only [covered, Set.mem_ofPred_eq, h.mem_iff]

/-! ## Swap-remove -/

/-- Delete slot `i` of an array with a count by moving the last element into it and
dropping the last slot. -/
def swapRemove (l : List α) (i : ℕ) : List α :=
  match l.getLast? with
  | some x => (l.set i x).dropLast
  | none => l

theorem swapRemove_perm {l : List α} {i : ℕ} (h : i < l.length) :
    (swapRemove l i).Perm (l.eraseIdx i) := by
  obtain ⟨l', x, rfl⟩ : ∃ l' x, l = l' ++ [x] :=
    ⟨l.dropLast, l.getLast (List.ne_nil_of_length_pos (Nat.lt_of_le_of_lt (Nat.zero_le i) h)),
      (List.dropLast_append_getLast _).symm⟩
  simp only [swapRemove, List.getLast?_concat]
  rcases Nat.lt_or_ge i l'.length with hi | hi
  · rw [List.set_append_left i x hi, List.dropLast_concat, List.eraseIdx_append_of_lt_length hi,
      List.set_eq_take_append_cons_drop, if_pos hi, List.eraseIdx_eq_take_drop_succ, List.append_assoc]
    exact List.Perm.append_left _ (List.perm_append_singleton x _).symm
  · have hi' : i = l'.length := by simp at h; omega
    subst hi'
    rw [List.set_append_right _ _ (Nat.le_refl _), Nat.sub_self, List.set_cons_zero,
      List.dropLast_concat, List.eraseIdx_append_of_length_le (Nat.le_refl _), Nat.sub_self]
    simp

theorem length_swapRemove {l : List α} {i : ℕ} (h : i < l.length) :
    (swapRemove l i).length + 1 = l.length := by
  rw [(swapRemove_perm h).length_eq, List.length_eraseIdx_of_lt h]
  omega

/-- Slots before the freed one keep their elements. -/
theorem getElem?_swapRemove_of_lt {l : List α} {i j : ℕ} (hj : j < i) (hi : i < l.length) :
    (swapRemove l i)[j]? = l[j]? := by
  obtain ⟨l', x, rfl⟩ : ∃ l' x, l = l' ++ [x] :=
    ⟨l.dropLast, l.getLast (List.ne_nil_of_length_pos (Nat.lt_of_le_of_lt (Nat.zero_le i) hi)),
      (List.dropLast_append_getLast _).symm⟩
  simp only [swapRemove, List.getLast?_concat]
  have hj' : j < l'.length := by simp at hi; omega
  rw [List.getElem?_dropLast, List.getElem?_set_ne (Nat.ne_of_gt hj), List.getElem?_append_left hj']
  simp only [List.length_set, List.length_append, List.length_singleton]
  rw [if_pos (by omega)]

theorem mem_of_mem_swapRemove {l : List α} {i : ℕ} {a : α} (h : i < l.length)
    (ha : a ∈ swapRemove l i) : a ∈ l :=
  List.mem_of_mem_eraseIdx ((swapRemove_perm h).mem_iff.mp ha)

theorem pairwise_swapRemove {R : α → α → Prop} {l : List α} {i : ℕ} (hl : l.Pairwise R)
    (hsymm : ∀ {a b}, R a b → R b a) (h : i < l.length) : (swapRemove l i).Pairwise R :=
  ((hl.sublist (List.eraseIdx_sublist l i)).perm (swapRemove_perm h).symm hsymm)

/-- The removed slot's interval and what is left cover what the list covered. -/
theorem covered_swapRemove {l : List α} {i : ℕ} (h : i < l.length) :
    Set.Icc (span l[i]).1 (span l[i]).2 ∪ covered span (swapRemove l i) = covered span l := by
  rw [covered_perm span (swapRemove_perm h), ← covered_cons,
    covered_perm span (List.getElem_cons_eraseIdx_perm h)]

end IntervalMerge
