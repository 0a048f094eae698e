import Mathlib

/-! # Total maps with a default

A finite map is often kept as a total function `m : α → β` in which one value `d`
stands for "absent": a null pointer, a zero, a default-constructed value.  Its keys
are the points where `m` is not `d` (`support`).  This module counts them across an
update (`card_support_update`), and rebuilds such a map from the list of its
entries by updates (`foldl_update_eq_of_entries`).
-/

namespace DefaultMap

variable {α β : Type}

section Support
variable [DecidableEq β] (d : β)

/-- The keys of `m`: the points where it is not the default. -/
def support [Fintype α] (m : α → β) : Finset α := Finset.univ.filter (m · ≠ d)

variable {d}

@[simp] theorem mem_support [Fintype α] {m : α → β} {a : α} : a ∈ support d m ↔ m a ≠ d := by
  simp [support]

theorem support_eq_empty_iff [Fintype α] {m : α → β} : support d m = ∅ ↔ ∀ a, m a = d := by
  simp [support, Finset.filter_eq_empty_iff]

variable [DecidableEq α]

omit [DecidableEq β] in
/-- A finite set has one more element than the set without `a`, when it holds `a`. -/
theorem card_eq_card_erase_add (s : Finset α) (a : α) :
    s.card = (s.erase a).card + if a ∈ s then 1 else 0 := by
  split
  · rename_i ha
    exact (Finset.card_erase_add_one ha).symm
  · rename_i ha
    rw [Finset.erase_eq_of_notMem ha, Nat.add_zero]

/-- **An update moves the number of keys by the change at its point.** -/
theorem card_support_update [Fintype α] (m : α → β) (a : α) (v : β) :
    (support d (Function.update m a v)).card + (if m a ≠ d then 1 else 0) =
      (support d m).card + (if v ≠ d then 1 else 0) := by
  have herase : (support d (Function.update m a v)).erase a = (support d m).erase a := by
    ext k
    by_cases hk : k = a <;> simp [hk]
  rw [card_eq_card_erase_add (support d (Function.update m a v)) a,
    card_eq_card_erase_add (support d m) a, herase]
  simp only [mem_support, Function.update_self]
  omega

end Support

section Fold
variable [DecidableEq α] {d : β}

/-- Updating along a list leaves alone every point that is not one of its keys. -/
theorem foldl_update_of_notMem {l : List (α × β)} {a : α} (ha : a ∉ l.map Prod.fst)
    (m₀ : α → β) : l.foldl (fun m e => Function.update m e.1 e.2) m₀ a = m₀ a := by
  induction l generalizing m₀ with
  | nil => rfl
  | cons e l ih =>
    rw [List.map_cons, List.mem_cons, not_or] at ha
    rw [List.foldl_cons, ih ha.2, Function.update_of_ne ha.1]

/-- Updating along a list with distinct keys gives each key its entry's value. -/
theorem foldl_update_of_mem {l : List (α × β)} (hl : (l.map Prod.fst).Nodup) {a : α} {b : β}
    (hab : (a, b) ∈ l) (m₀ : α → β) :
    l.foldl (fun m e => Function.update m e.1 e.2) m₀ a = b := by
  induction l generalizing m₀ with
  | nil => cases hab
  | cons e l ih =>
    rw [List.map_cons, List.nodup_cons] at hl
    rw [List.foldl_cons]
    rcases List.mem_cons.mp hab with rfl | hmem
    · rw [foldl_update_of_notMem hl.1, Function.update_self]
    · exact ih hl.2 hmem _

/-- **A map is rebuilt from its entries.**  Updating the everywhere-default map along
a list with distinct keys whose entries are exactly the keys of `m` with their values
gives `m`. -/
theorem foldl_update_eq_of_entries {l : List (α × β)} (hl : (l.map Prod.fst).Nodup)
    {m : α → β} (hmem : ∀ a b, (a, b) ∈ l ↔ m a ≠ d ∧ b = m a) :
    l.foldl (fun m e => Function.update m e.1 e.2) (fun _ => d) = m := by
  funext a
  by_cases ha : m a = d
  · have hnot : a ∉ l.map Prod.fst := by
      intro hm
      obtain ⟨e, he, rfl⟩ := List.mem_map.mp hm
      exact ((hmem e.1 e.2).mp he).1 ha
    rw [foldl_update_of_notMem hnot, ha]
  · exact foldl_update_of_mem hl ((hmem a (m a)).mpr ⟨ha, rfl⟩) _

end Fold

end DefaultMap
