import Mathlib

/-! # The generic XFS B+tree, one leaf deep

`xfs_btree.cpp` implements one B+tree for every on-disk index, parameterised by a
`Traits` class whose `cmp_key` orders a record's key against a target.  This module
models the tree while its root is a leaf (`nlevels = 1`): the records of that leaf in
order, the 1-based binary search of `xfs_btree_lookup` with its LE/EQ/GE adjustments,
`xfs_btree_increment`, and the in-leaf paths of `xfs_btree_insert` and
`xfs_btree_delete`.  Splits, internal nodes and rebalancing are not modelled: the leaf
has no capacity bound here.

The traits carry, beside the code's comparison, the key it compares as a number and
the proof that `cmp_key` is `compare` on it; the spec lemmas below are stated on that
key.  On a strictly sorted leaf the lookups find the partition point of the target
(`leafPtr_spec`), insertion is insertion into the sorted set or `-EEXIST`, and
deletion removes the record under the cursor.
-/

namespace Wos.XfsBtree

/-- The error numbers these paths return. -/
inductive Errno where
  | enoent | eio | einval | enospc | eexist
deriving DecidableEq, Repr

/-- `XfsBtreeLookup`. -/
inductive XfsBtreeLookup where
  | le | eq | ge
deriving DecidableEq, Repr

/-- One instantiation of the tree: `cmp_key` of a record's key against a target, the
key it compares, and the fact that it compares it. -/
structure Traits (α : Type) where
  cmpKey : α → α → Ordering
  key : α → Nat
  cmpKey_eq : ∀ a b, cmpKey a b = compare (key a) (key b)

section TraitsOrder

variable {α : Type} {t : Traits α}

theorem Traits.cmpKey_lt_iff {a b : α} : t.cmpKey a b = .lt ↔ t.key a < t.key b := by
  rw [t.cmpKey_eq]; exact compare_lt_iff_lt

theorem Traits.cmpKey_gt_iff {a b : α} : t.cmpKey a b = .gt ↔ t.key b < t.key a := by
  rw [t.cmpKey_eq]; exact compare_gt_iff_gt

theorem Traits.cmpKey_eq_iff {a b : α} : t.cmpKey a b = .eq ↔ t.key a = t.key b := by
  rw [t.cmpKey_eq]; exact compare_eq_iff_eq

end TraitsOrder

variable {α : Type} [Inhabited α]

/-- `rec_at(i)`, 1-based. -/
def recAt (recs : List α) (i : Nat) : α := recs.getD (i - 1) default

/-- The binary search of `xfs_btree_lookup` within a block, over `[low, high]`,
returning `(keyno, cmp_r)` at exit.  Inside the loop `low ≥ 1`, so `keyno ≥ 1` and
`keyno - 1` is the C value: the indices stay natural numbers. -/
def blockSearch (cmp : α → α → Ordering) (recs : List α) (target : α) :
    Nat → Nat → Nat → Nat → Ordering → Nat × Ordering
  | 0, _, _, keyno, c => (keyno, c)
  | fuel + 1, low, high, keyno, c =>
    if low ≤ high then
      match cmp (recAt recs ((low + high) / 2)) target with
      | .lt => blockSearch cmp recs target fuel ((low + high) / 2 + 1) high ((low + high) / 2) .lt
      | .gt => blockSearch cmp recs target fuel low ((low + high) / 2 - 1) ((low + high) / 2) .gt
      | .eq => ((low + high) / 2, .eq)
    else (keyno, c)

/-- At the leaf: `keyno`, one less if the last probe overshot (`cmp_r > 0`). -/
def overshootAdjust (r : Nat × Ordering) : Nat := if r.2 = .gt then r.1 - 1 else r.1

/-- The leaf position the descent leaves. -/
def leafPtr (t : Traits α) (recs : List α) (target : α) : Nat :=
  overshootAdjust (blockSearch t.cmpKey recs target (recs.length + 1) 1 recs.length 1 .eq)

/-- `xfs_btree_increment` on a tree of one leaf. -/
def xfsBtreeIncrement (recs : List α) (ptr : Nat) : Except Errno Nat :=
  if ptr + 1 ≤ recs.length then .ok (ptr + 1) else .error .enoent

/-- `xfs_btree_lookup` on a tree of one leaf: the cursor position, 1-based. -/
def xfsBtreeLookup (t : Traits α) (recs : List α) (target : α) (dir : XfsBtreeLookup) : Except Errno Nat :=
  if recs.length = 0 then .error .enoent
  else
    let ptr := leafPtr t recs target
    let nr := recs.length
    let adjusted : Except Errno Nat :=
      match dir with
      | .le => if ptr < 1 then .error .enoent else .ok (if ptr > nr then nr else ptr)
      | .eq =>
        if ptr < 1 ∨ ptr > nr then .error .enoent
        else if t.cmpKey (recAt recs ptr) target ≠ .eq then .error .enoent
        else .ok ptr
      | .ge =>
        let ptr := if ptr < 1 then 1 else ptr
        if ptr > nr then xfsBtreeIncrement recs ptr
        else if t.cmpKey (recAt recs ptr) target = .lt then
          if ptr < nr then .ok (ptr + 1) else xfsBtreeIncrement recs ptr
        else .ok ptr
    adjusted.bind fun p => if p < 1 ∨ p > nr then .error .enoent else .ok p

/-- `xfs_btree_get_rec`. -/
def xfsBtreeGetRec (recs : List α) (ptr : Nat) : α := recAt recs ptr

/-- `xfs_btree_insert` on a tree of one leaf: a GE lookup gives the slot, an equal
key there is `-EEXIST`, and the record goes in before the slot (at the end if the
lookup found none). -/
def xfsBtreeInsert (t : Traits α) (recs : List α) (irec : α) : Except Errno (List α) :=
  let insertPtr : Except Errno Nat :=
    match xfsBtreeLookup t recs irec .ge with
    | .error .enoent => .ok (recs.length + 1)
    | .ok ptr => if t.cmpKey (recAt recs ptr) irec = .eq then .error .eexist else .ok ptr
    | .error e => .error e
  insertPtr.map fun p => recs.insertIdx (p - 1) irec

/-- `xfs_btree_delete` on a tree of one leaf, at the cursor position `ptr`. -/
def xfsBtreeDelete (recs : List α) (ptr : Nat) : Except Errno (List α) :=
  if ptr < 1 ∨ ptr > recs.length then .error .einval else .ok (recs.eraseIdx (ptr - 1))

/-! ## The free-space records and their two orders -/

/-- `XfsAllocRec` / `IRec` of the free-space trees. -/
structure AllocRec where
  startblock : UInt32
  blockcount : UInt32
deriving DecidableEq, Repr, Inhabited

/-- `XfsBnobtTraits::cmp_key`: by start block. -/
def bnobtCmpKey (key target : AllocRec) : Ordering :=
  if key.startblock < target.startblock then .lt
  else if key.startblock > target.startblock then .gt
  else .eq

/-- `XfsCntbtTraits::cmp_key`: by length, then start block. -/
def cntbtCmpKey (key target : AllocRec) : Ordering :=
  if key.blockcount < target.blockcount then .lt
  else if key.blockcount > target.blockcount then .gt
  else if key.startblock < target.startblock then .lt
  else if key.startblock > target.startblock then .gt
  else .eq

theorem bnobtCmpKey_eq (a b : AllocRec) :
    bnobtCmpKey a b = compare a.startblock.toNat b.startblock.toNat := by
  unfold bnobtCmpKey
  simp only [UInt32.lt_iff_toNat_lt, gt_iff_lt]
  split_ifs with h1 h2
  · exact (compare_lt_iff_lt.mpr h1).symm
  · exact (compare_gt_iff_gt.mpr h2).symm
  · exact (compare_eq_iff_eq.mpr (by omega)).symm

/-- The order of the by-size tree as one number: length above start block. -/
def cntKey (r : AllocRec) : Nat := r.blockcount.toNat * 2 ^ 32 + r.startblock.toNat

theorem cntbtCmpKey_eq (a b : AllocRec) : cntbtCmpKey a b = compare (cntKey a) (cntKey b) := by
  have ha := a.startblock.toNat_lt
  have hb := b.startblock.toNat_lt
  unfold cntbtCmpKey cntKey
  simp only [UInt32.lt_iff_toNat_lt, gt_iff_lt]
  split_ifs with h1 h2 h3 h4
  · exact (compare_lt_iff_lt.mpr (by nlinarith)).symm
  · exact (compare_gt_iff_gt.mpr (by nlinarith)).symm
  · exact (compare_lt_iff_lt.mpr (by
      have : a.blockcount.toNat = b.blockcount.toNat := by omega
      omega)).symm
  · exact (compare_gt_iff_gt.mpr (by
      have : a.blockcount.toNat = b.blockcount.toNat := by omega
      omega)).symm
  · exact (compare_eq_iff_eq.mpr (by
      have : a.blockcount.toNat = b.blockcount.toNat := by omega
      omega)).symm

def XfsBnobtTraits : Traits AllocRec := ⟨bnobtCmpKey, fun r => r.startblock.toNat, bnobtCmpKey_eq⟩

def XfsCntbtTraits : Traits AllocRec := ⟨cntbtCmpKey, cntKey, cntbtCmpKey_eq⟩

@[simp] theorem XfsBnobtTraits_key (r : AllocRec) : XfsBnobtTraits.key r = r.startblock.toNat := rfl

@[simp] theorem XfsCntbtTraits_key (r : AllocRec) : XfsCntbtTraits.key r = cntKey r := rfl


/-! ## The lookup on a sorted leaf -/

/-- The leaf is strictly increasing in the traits' key, as a well-formed tree's
records are. -/
def Sorted (t : Traits α) (recs : List α) : Prop := recs.Pairwise fun a b => t.key a < t.key b

instance (t : Traits α) (recs : List α) : Decidable (Sorted t recs) := inferInstanceAs (Decidable (List.Pairwise _ _))

section Lookup

variable {t : Traits α} {recs : List α} {target : α}

theorem Sorted.key_lt (hs : Sorted t recs) {i j : Nat} (hi : 1 ≤ i) (hij : i < j) (hj : j ≤ recs.length) :
    t.key (recAt recs i) < t.key (recAt recs j) := by
  unfold recAt
  rw [List.getD_eq_getElem _ _ (by omega), List.getD_eq_getElem _ _ (by omega)]
  exact List.pairwise_iff_getElem.mp hs _ _ _ _ (by omega)

theorem Sorted.key_le (hs : Sorted t recs) {i j : Nat} (hi : 1 ≤ i) (hij : i ≤ j) (hj : j ≤ recs.length) :
    t.key (recAt recs i) ≤ t.key (recAt recs j) := by
  rcases Nat.lt_or_eq_of_le hij with hlt | rfl
  · exact le_of_lt (hs.key_lt hi hlt hj)
  · exact le_refl _

/-- `p` splits the leaf at `target`: the records up to `p` have keys at most the
target's, those after it keys above. -/
def PartitionPoint (t : Traits α) (recs : List α) (target : α) (p : Nat) : Prop :=
  p ≤ recs.length ∧ (∀ i, 1 ≤ i → i ≤ p → t.key (recAt recs i) ≤ t.key target) ∧
    ∀ i, p < i → i ≤ recs.length → t.key target < t.key (recAt recs i)

/-- The binary search keeps the records below `low` under the target and those above
`high` over it, and remembers in `(keyno, cmp_r)` which side it last moved; at exit
the adjusted `keyno` is `high`, the partition point. -/
theorem blockSearch_spec (hs : Sorted t recs) : ∀ (fuel low high keyno : Nat) (c : Ordering),
    high + 1 - low < fuel → 1 ≤ low → high ≤ recs.length → low ≤ high + 1 →
    (∀ i, 1 ≤ i → i < low → t.key (recAt recs i) < t.key target) →
    (∀ i, high < i → i ≤ recs.length → t.key target < t.key (recAt recs i)) →
    (low ≤ high ∨ (c = .lt ∧ keyno + 1 = low) ∨ (c = .gt ∧ keyno = high + 1)) →
    PartitionPoint t recs target (overshootAdjust (blockSearch t.cmpKey recs target fuel low high keyno c))
  | 0, _, _, _, _, hfuel, _, _, _, _, _, _ => absurd hfuel (Nat.not_lt_zero _)
  | fuel + 1, low, high, keyno, c, hfuel, hlow, hhigh, hlh, hbelow, habove, hlast => by
    by_cases hle : low ≤ high
    · have hmid1 : 1 ≤ (low + high) / 2 := by omega
      have hmidlo : low ≤ (low + high) / 2 := by omega
      have hmidhi : (low + high) / 2 ≤ high := by omega
      rcases hc : t.cmpKey (recAt recs ((low + high) / 2)) target with _ | _ | _
      · -- the probe is below the target: move low past it
        have hlt := Traits.cmpKey_lt_iff.mp hc
        simp only [blockSearch, hle, if_true, hc]
        refine blockSearch_spec hs fuel _ high _ .lt (by omega) (by omega) hhigh (by omega)
          (fun i hi hi' => lt_of_le_of_lt (hs.key_le hi (by omega) (by omega)) hlt) habove
          (Or.inr (Or.inl ⟨rfl, rfl⟩))
      · -- an exact match stops the search at the probe
        have heq := Traits.cmpKey_eq_iff.mp hc
        simp only [blockSearch, hle, if_true, hc]
        show PartitionPoint t recs target ((low + high) / 2)
        refine ⟨by omega, fun i hi hi' => heq ▸ hs.key_le hi hi' (by omega),
          fun i hi hi' => heq ▸ hs.key_lt hmid1 hi hi'⟩
      · -- the probe is above the target: move high below it
        have hgt := Traits.cmpKey_gt_iff.mp hc
        simp only [blockSearch, hle, if_true, hc]
        refine blockSearch_spec hs fuel low _ _ .gt (by omega) hlow (by omega) (by omega) hbelow
          (fun i hi hi' => lt_of_lt_of_le hgt (hs.key_le hmid1 (by omega) hi'))
          (Or.inr (Or.inr ⟨rfl, by omega⟩))
    · simp only [blockSearch, hle, if_false]
      have hp : overshootAdjust (keyno, c) = high := by
        unfold overshootAdjust
        rcases hlast with h | ⟨rfl, h⟩ | ⟨rfl, h⟩
        · omega
        · simp; omega
        · simp; omega
      rw [hp]
      exact ⟨hhigh, fun i hi hi' => le_of_lt (hbelow i hi (by omega)), habove⟩

theorem leafPtr_spec (hs : Sorted t recs) (hne : recs.length ≠ 0) (target : α) :
    PartitionPoint t recs target (leafPtr t recs target) :=
  blockSearch_spec hs _ _ _ _ _ (by omega) (le_refl _) (le_refl _) (by omega)
    (fun i hi hi' => absurd hi' (by omega)) (fun i hi hi' => absurd hi' (by omega)) (Or.inl (by omega))

theorem xfsBtreeLookup_le_eq (hs : Sorted t recs) (hne : recs.length ≠ 0) :
    xfsBtreeLookup t recs target .le =
      if leafPtr t recs target < 1 then .error .enoent else .ok (leafPtr t recs target) := by
  obtain ⟨hle, -, -⟩ := leafPtr_spec hs hne target
  unfold xfsBtreeLookup
  simp only [hne, if_false]
  split_ifs with h1 h2
  · rfl
  · omega
  · exact if_neg (by omega)

/-- GE: from the partition point, the first record at or above the target. -/
theorem xfsBtreeLookup_ge_eq (hs : Sorted t recs) (hne : recs.length ≠ 0) :
    xfsBtreeLookup t recs target .ge =
      if t.key (recAt recs (max 1 (leafPtr t recs target))) < t.key target then
        (if max 1 (leafPtr t recs target) < recs.length then .ok (max 1 (leafPtr t recs target) + 1)
          else .error .enoent)
      else .ok (max 1 (leafPtr t recs target)) := by
  obtain ⟨hle, -, -⟩ := leafPtr_spec hs hne target
  have hmax : (if leafPtr t recs target < 1 then 1 else leafPtr t recs target) = max 1 (leafPtr t recs target) := by
    split_ifs <;> omega
  unfold xfsBtreeLookup
  simp only [hne, if_false, hmax, ← Traits.cmpKey_lt_iff, xfsBtreeIncrement]
  split_ifs <;> first | rfl | omega | exact if_neg (by omega)

theorem xfsBtreeLookup_eq_eq (hs : Sorted t recs) (hne : recs.length ≠ 0) :
    xfsBtreeLookup t recs target .eq =
      if leafPtr t recs target < 1 ∨ t.key (recAt recs (leafPtr t recs target)) ≠ t.key target then .error .enoent
      else .ok (leafPtr t recs target) := by
  obtain ⟨hle, -, -⟩ := leafPtr_spec hs hne target
  have hin : ¬leafPtr t recs target > recs.length := by omega
  unfold xfsBtreeLookup
  simp only [hne, if_false, ne_eq, ← Traits.cmpKey_eq_iff, hin, or_false]
  by_cases h1 : leafPtr t recs target < 1
  · simp only [h1, true_or, if_true]
    rfl
  · by_cases h2 : t.cmpKey (recAt recs (leafPtr t recs target)) target = .eq
    · simp only [h1, h2, not_true_eq_false, or_false, if_false]
      exact if_neg (by omega)
    · simp only [h1, h2, not_false_eq_true, or_true, if_true]
      rfl

theorem length_ne_zero_of_lookup_ok {dir : XfsBtreeLookup} {p : Nat} (h : xfsBtreeLookup t recs target dir = .ok p) :
    recs.length ≠ 0 := by
  intro h0
  simp [xfsBtreeLookup, h0] at h

/-- LE finds the last record at or below the target. -/
theorem xfsBtreeLookup_le_ok (hs : Sorted t recs) {p : Nat} (h : xfsBtreeLookup t recs target .le = .ok p) :
    1 ≤ p ∧ p ≤ recs.length ∧ t.key (recAt recs p) ≤ t.key target ∧
      ∀ i, p < i → i ≤ recs.length → t.key target < t.key (recAt recs i) := by
  have hne := length_ne_zero_of_lookup_ok h
  obtain ⟨hle, hbelow, habove⟩ := leafPtr_spec hs hne target
  rw [xfsBtreeLookup_le_eq hs hne] at h
  split_ifs at h with h1
  cases h
  exact ⟨by omega, hle, hbelow _ (by omega) le_rfl, habove⟩

/-- LE fails only when every record is above the target. -/
theorem xfsBtreeLookup_le_error (hs : Sorted t recs) {e : Errno} (h : xfsBtreeLookup t recs target .le = .error e) :
    e = .enoent ∧ ∀ i, 1 ≤ i → i ≤ recs.length → t.key target < t.key (recAt recs i) := by
  by_cases hne : recs.length = 0
  · simp only [xfsBtreeLookup, hne, if_true, Except.error.injEq] at h
    exact ⟨h.symm, fun i _ hi' => absurd hi' (by omega)⟩
  · obtain ⟨-, -, habove⟩ := leafPtr_spec hs hne target
    rw [xfsBtreeLookup_le_eq hs hne] at h
    split_ifs at h with h1
    cases h
    exact ⟨rfl, fun i hi hi' => habove i (by omega) hi'⟩

/-- GE finds the first record at or above the target. -/
theorem xfsBtreeLookup_ge_ok (hs : Sorted t recs) {p : Nat} (h : xfsBtreeLookup t recs target .ge = .ok p) :
    1 ≤ p ∧ p ≤ recs.length ∧ t.key target ≤ t.key (recAt recs p) ∧
      ∀ i, 1 ≤ i → i < p → t.key (recAt recs i) < t.key target := by
  have hne := length_ne_zero_of_lookup_ok h
  obtain ⟨hle, hbelow, habove⟩ := leafPtr_spec hs hne target
  rw [xfsBtreeLookup_ge_eq hs hne] at h
  split_ifs at h with h1 h2
  · cases h
    refine ⟨by omega, by omega, le_of_lt (habove _ (by omega) (by omega)), fun i hi hi' => ?_⟩
    exact lt_of_le_of_lt (hs.key_le hi (by omega) (by omega)) h1
  · cases h
    refine ⟨by omega, by omega, not_lt.mp h1, fun i hi hi' => ?_⟩
    exact lt_of_lt_of_le (hs.key_lt hi (by omega) hle) (hbelow _ (by omega) le_rfl)

/-- GE fails only when every record is below the target. -/
theorem xfsBtreeLookup_ge_error (hs : Sorted t recs) {e : Errno} (h : xfsBtreeLookup t recs target .ge = .error e) :
    e = .enoent ∧ ∀ i, 1 ≤ i → i ≤ recs.length → t.key (recAt recs i) < t.key target := by
  by_cases hne : recs.length = 0
  · simp only [xfsBtreeLookup, hne, if_true, Except.error.injEq] at h
    exact ⟨h.symm, fun i _ hi' => absurd hi' (by omega)⟩
  · obtain ⟨hle, -, -⟩ := leafPtr_spec hs hne target
    rw [xfsBtreeLookup_ge_eq hs hne] at h
    split_ifs at h with h1 h2
    cases h
    refine ⟨rfl, fun i hi hi' => lt_of_le_of_lt (hs.key_le hi hi' (by omega)) ?_⟩
    rwa [show recs.length = max 1 (leafPtr t recs target) by omega]

/-- EQ finds the record of the target's key. -/
theorem xfsBtreeLookup_eq_ok (hs : Sorted t recs) {p : Nat} (h : xfsBtreeLookup t recs target .eq = .ok p) :
    1 ≤ p ∧ p ≤ recs.length ∧ t.key (recAt recs p) = t.key target := by
  have hne := length_ne_zero_of_lookup_ok h
  obtain ⟨hle, -, -⟩ := leafPtr_spec hs hne target
  rw [xfsBtreeLookup_eq_eq hs hne] at h
  split_ifs at h with h1
  cases h
  simp only [not_or, not_lt, ne_eq, not_not] at h1
  exact ⟨h1.1, hle, h1.2⟩

/-- EQ fails only when no record has the target's key. -/
theorem xfsBtreeLookup_eq_error (hs : Sorted t recs) {e : Errno} (h : xfsBtreeLookup t recs target .eq = .error e) :
    e = .enoent ∧ ∀ i, 1 ≤ i → i ≤ recs.length → t.key (recAt recs i) ≠ t.key target := by
  by_cases hne : recs.length = 0
  · simp only [xfsBtreeLookup, hne, if_true, Except.error.injEq] at h
    exact ⟨h.symm, fun i _ hi' => absurd hi' (by omega)⟩
  · obtain ⟨hle, hbelow, habove⟩ := leafPtr_spec hs hne target
    rw [xfsBtreeLookup_eq_eq hs hne] at h
    split_ifs at h with h1
    cases h
    refine ⟨rfl, fun i hi hi' heq => ?_⟩
    by_cases hip : i ≤ leafPtr t recs target
    · have hpk := hbelow _ (by omega) le_rfl
      have hik := hs.key_le hi hip hle
      rcases h1 with h1 | h1
      · omega
      · exact h1 (le_antisymm hpk (heq ▸ hik))
    · exact absurd heq (ne_of_gt (habove i (by omega) hi'))

end Lookup

/-! ## Insertion and deletion keep the sorted set -/

theorem List.pairwise_insertIdx {β : Type} {R : β → β → Prop} :
    ∀ {l : List β} {i : Nat} {x : β}, l.Pairwise R → (∀ a ∈ l.take i, R a x) → (∀ b ∈ l.drop i, R x b) →
      (l.insertIdx i x).Pairwise R
  | l, 0, x, hl, _, hd => by
    rw [List.insertIdx_zero]
    exact List.pairwise_cons.mpr ⟨fun b hb => hd b (by simpa using hb), hl⟩
  | [], _ + 1, _, _, _, _ => List.Pairwise.nil
  | y :: ys, i + 1, x, hl, ht, hd => by
    obtain ⟨hy, hys⟩ := List.pairwise_cons.mp hl
    rw [List.insertIdx_succ_cons]
    refine List.pairwise_cons.mpr ⟨fun b hb => ?_,
      List.pairwise_insertIdx hys (fun a ha => ht a (by simp [ha])) (fun b hb => hd b (by simpa using hb))⟩
    have hmem : b = x ∨ b ∈ ys := by
      by_cases hi : i ≤ ys.length
      · exact (List.mem_insertIdx hi).mp hb
      · rw [List.insertIdx_of_length_lt (by omega)] at hb
        exact Or.inr hb
    rcases hmem with rfl | hb
    · exact ht y (by simp)
    · exact hy b hb

section Update

variable {t : Traits α} {recs : List α}

theorem recAt_mem {i : Nat} (hi : 1 ≤ i) (hi' : i ≤ recs.length) : recAt recs i ∈ recs := by
  unfold recAt
  rw [List.getD_eq_getElem _ _ (by omega)]
  exact List.getElem_mem _

theorem exists_recAt_of_mem_take {a : α} {n : Nat} (h : a ∈ recs.take n) :
    ∃ i, 1 ≤ i ∧ i ≤ n ∧ i ≤ recs.length ∧ recAt recs i = a := by
  obtain ⟨j, hj, rfl⟩ := List.mem_take_iff_getElem.mp h
  refine ⟨j + 1, by omega, by omega, by omega, ?_⟩
  rw [recAt, Nat.add_sub_cancel, List.getD_eq_getElem _ _ (by omega)]

theorem exists_recAt_of_mem_drop {a : α} {n : Nat} (h : a ∈ recs.drop n) :
    ∃ i, n < i ∧ i ≤ recs.length ∧ recAt recs i = a := by
  obtain ⟨j, hj, rfl⟩ := List.mem_drop_iff_getElem.mp h
  refine ⟨n + j + 1, by omega, by omega, ?_⟩
  rw [recAt, Nat.add_sub_cancel, List.getD_eq_getElem _ _ (by omega)]

theorem exists_recAt_of_mem {a : α} (h : a ∈ recs) : ∃ i, 1 ≤ i ∧ i ≤ recs.length ∧ recAt recs i = a := by
  obtain ⟨j, hj, rfl⟩ := List.mem_iff_getElem.mp h
  refine ⟨j + 1, by omega, by omega, ?_⟩
  rw [recAt, Nat.add_sub_cancel, List.getD_eq_getElem _ _ hj]

/-- A successful insertion adds the record to the set and keeps the leaf sorted: the
GE slot has every record before it below the new key and every one from it on above. -/
theorem xfsBtreeInsert_ok (hs : Sorted t recs) {irec : α} {recs' : List α}
    (h : xfsBtreeInsert t recs irec = .ok recs') : Sorted t recs' ∧ recs'.Perm (irec :: recs) := by
  unfold xfsBtreeInsert at h
  rcases hl : xfsBtreeLookup t recs irec .ge with e | p
  · obtain ⟨rfl, hbelow⟩ := xfsBtreeLookup_ge_error hs hl
    simp only [hl, Except.map, Except.ok.injEq, Nat.add_sub_cancel] at h
    subst h
    refine ⟨List.pairwise_insertIdx hs (fun a ha => ?_) (fun b hb => ?_), List.perm_insertIdx _ _ le_rfl⟩
    · obtain ⟨i, hi, -, hi', rfl⟩ := exists_recAt_of_mem_take ha
      exact hbelow i hi hi'
    · simp at hb
  · obtain ⟨hp1, hpn, hge, hbelow⟩ := xfsBtreeLookup_ge_ok hs hl
    simp only [hl] at h
    split_ifs at h with heq
    · simp [Except.map] at h
    · have hlt : t.key irec < t.key (recAt recs p) :=
        lt_of_le_of_ne hge fun h' => heq (Traits.cmpKey_eq_iff.mpr h'.symm)
      simp only [Except.map, Except.ok.injEq] at h
      subst h
      refine ⟨List.pairwise_insertIdx hs (fun a ha => ?_) (fun b hb => ?_), List.perm_insertIdx _ _ (by omega)⟩
      · obtain ⟨i, hi, hin, -, rfl⟩ := exists_recAt_of_mem_take ha
        exact hbelow i hi (by omega)
      · obtain ⟨i, hi, hi', rfl⟩ := exists_recAt_of_mem_drop hb
        exact lt_of_lt_of_le hlt (hs.key_le hp1 (by omega) hi')

/-- Insertion fails only on a duplicate key. -/
theorem xfsBtreeInsert_error (hs : Sorted t recs) {irec : α} {e : Errno}
    (h : xfsBtreeInsert t recs irec = .error e) : e = .eexist ∧ ∃ r ∈ recs, t.key r = t.key irec := by
  unfold xfsBtreeInsert at h
  rcases hl : xfsBtreeLookup t recs irec .ge with e' | p
  · obtain ⟨rfl, -⟩ := xfsBtreeLookup_ge_error hs hl
    simp [hl, Except.map] at h
  · obtain ⟨hp1, hpn, -, -⟩ := xfsBtreeLookup_ge_ok hs hl
    simp only [hl] at h
    split_ifs at h with heq
    · simp only [Except.map, Except.error.injEq] at h
      exact ⟨h.symm, recAt recs p, recAt_mem hp1 hpn, Traits.cmpKey_eq_iff.mp heq⟩
    · simp [Except.map] at h

/-- Deletion at a cursor removes the record under it and keeps the leaf sorted. -/
theorem xfsBtreeDelete_ok (hs : Sorted t recs) {p : Nat} {recs' : List α} (h : xfsBtreeDelete recs p = .ok recs') :
    Sorted t recs' ∧ (recAt recs p :: recs').Perm recs := by
  unfold xfsBtreeDelete at h
  split_ifs at h with hp
  simp only [Except.ok.injEq] at h
  subst h
  refine ⟨hs.sublist (List.eraseIdx_sublist _ _), ?_⟩
  rw [recAt, List.getD_eq_getElem _ _ (by omega)]
  exact List.getElem_cons_eraseIdx_perm (by omega)

end Update

end Wos.XfsBtree
