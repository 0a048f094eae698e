import Mathlib

/-! # Lists cut into consecutive chunks

A B+tree stores a sorted sequence cut into blocks, and each level above stores one entry
per block of the level below.  This module is the list algebra behind that picture:
sums over a prefix (`prefixSum`), where a chunk starts in the flattened list
(`chunkStart`), and what sits there (`getElem?_flatten_chunkStart`).
-/

namespace ChunkedList

variable {α β : Type}

/-- The sum of `f` over the first `x` elements of `l`. -/
def prefixSum (f : β → Nat) (l : List β) (x : Nat) : Nat := ((l.take x).map f).sum

section Prefix

variable {f g : β → Nat} {l : List β} {b : β} {x y : Nat}

@[simp] theorem prefixSum_zero : prefixSum f l 0 = 0 := by simp [prefixSum]

@[simp] theorem prefixSum_cons_succ : prefixSum f (b :: l) (x + 1) = f b + prefixSum f l x := by
  simp [prefixSum]

theorem prefixSum_succ (hx : x < l.length) : prefixSum f l (x + 1) = prefixSum f l x + f l[x] := by
  unfold prefixSum
  rw [List.take_add_one, List.getElem?_eq_getElem hx, List.map_append, List.sum_append]
  simp

theorem prefixSum_length : prefixSum f l l.length = (l.map f).sum := by simp [prefixSum]

theorem prefixSum_mono (h : x ≤ y) : prefixSum f l x ≤ prefixSum f l y := by
  induction l generalizing x y with
  | nil => simp [prefixSum]
  | cons b l ih =>
    cases x with
    | zero => simp
    | succ x =>
      obtain ⟨y, rfl⟩ : ∃ y', y = y' + 1 := ⟨y - 1, by omega⟩
      simp only [prefixSum_cons_succ]
      exact Nat.add_le_add_left (ih (by omega)) _

/-- With every term positive, the sum grows with every element taken. -/
theorem prefixSum_lt (hpos : ∀ b ∈ l, 0 < f b) (hxy : x < y) (hy : y ≤ l.length) :
    prefixSum f l x < prefixSum f l y := by
  have hstep : prefixSum f l (x + 1) = prefixSum f l x + f l[x] := prefixSum_succ (by omega)
  have hpos' := hpos _ (List.getElem_mem (show x < l.length by omega))
  have hmono : prefixSum f l (x + 1) ≤ prefixSum f l y := prefixSum_mono (by omega)
  omega

theorem prefixSum_congr (h : ∀ b ∈ l, f b = g b) : prefixSum f l x = prefixSum g l x := by
  unfold prefixSum
  rw [List.map_congr_left fun b hb => h b ((List.take_sublist x l).subset hb)]

theorem prefixSum_map {h : α → β} {l : List α} : prefixSum f (l.map h) x = prefixSum (f ∘ h) l x := by
  simp [prefixSum, ← List.map_take]

end Prefix

/-- Where chunk `x` starts in `cs.flatten`. -/
def chunkStart (cs : List (List α)) (x : Nat) : Nat := prefixSum List.length cs x

section Start

variable {cs : List (List α)} {c : List α} {x i : Nat}

@[simp] theorem chunkStart_zero : chunkStart cs 0 = 0 := prefixSum_zero

@[simp] theorem chunkStart_cons_succ : chunkStart (c :: cs) (x + 1) = c.length + chunkStart cs x :=
  prefixSum_cons_succ

theorem chunkStart_length : chunkStart cs cs.length = cs.flatten.length := by
  rw [chunkStart, prefixSum_length, List.length_flatten]

/-- Entry `i` of chunk `x` sits at `chunkStart cs x + i` of the flattened list. -/
theorem getElem?_flatten_chunkStart (hi : i < (cs.getD x []).length) :
    cs.flatten[chunkStart cs x + i]? = (cs.getD x [])[i]? := by
  induction cs generalizing x with
  | nil => simp at hi
  | cons c cs ih =>
    cases x with
    | zero =>
      simp only [List.getD_cons_zero] at hi ⊢
      simp [List.getElem?_append_left hi]
    | succ x =>
      simp only [List.getD_cons_succ] at hi ⊢
      rw [chunkStart_cons_succ, List.flatten_cons, Nat.add_assoc,
        List.getElem?_append_right (by omega), Nat.add_sub_cancel_left]
      exact ih hi

end Start

end ChunkedList
