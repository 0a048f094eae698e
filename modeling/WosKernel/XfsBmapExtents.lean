import Mathlib
import WosKernel.XfsBtree

/-! # The XFS data-fork extent list

The block map of an inode's data fork is a list of extent records ordered by file
offset (`XfsBmbtIrec`).  `xfs_bmap.cpp` adds an extent by `try_extents_fast_add`
(append or merge at the end) or by `insert_or_merge_extent`, which copies the list,
places the new extent and merges it and every later neighbour it touches; lookups in
the extents format binary-search the list (`bmap_lookup_extents`).

Every field is 64-bit in the source.  `bmbt_valid_irec` bounds offsets by `2^54`,
blocks by `2^52` and lengths by `2^21`, so every sum formed here stays below `2^64`
and the fields are natural numbers.

The list means a partial map from file block to (disk block, unwritten)
(`extentMap`).  On an ordered list, `insert_or_merge_extent` succeeds when the new
extent is disjoint from the mapped blocks, keeps the list ordered and maps the union
(`insertOrMergeExtent_ok`), and fails with `-EIO` otherwise
(`insertOrMergeExtent_error`); the fast path does the same when it applies
(`tryExtentsFastAdd_spec`), and the lookup answers by the map, for mapped blocks and
holes alike (`bmapLookupExtents_spec`).
-/

namespace Wos.XfsBmap

open Wos.XfsBtree

/-- `XfsBmbtIrec`. -/
structure XfsBmbtIrec where
  startoff : Nat
  startblock : Nat
  blockcount : Nat
  unwritten : Bool
deriving DecidableEq, Repr, Inhabited

/-- `NULLFSBLOCK`. -/
def nullFsBlock : Nat := 2 ^ 64 - 1

def maxStartoff : Nat := 0x3FFFFFFFFFFFFF

def maxStartblock : Nat := 0xFFFFFFFFFFFFF

def maxBlockcount : Nat := 0x1FFFFF

/-- `bmbt_valid_irec`. -/
def bmbtValidIrec (rec : XfsBmbtIrec) : Bool :=
  if rec.blockcount = 0 ∨ rec.blockcount > maxBlockcount ∨ rec.startoff > maxStartoff ∨
      rec.startblock = nullFsBlock ∨ rec.startblock > maxStartblock then false
  else decide (rec.blockcount ≤ maxStartoff - rec.startoff + 1 ∧ rec.blockcount ≤ maxStartblock - rec.startblock + 1)

/-- `bmbt_file_end_exclusive`. -/
def bmbtFileEndExclusive (rec : XfsBmbtIrec) : Nat := rec.startoff + rec.blockcount

/-- `extent_can_merge_left`: contiguous in the file and on disk, of one kind, and
short enough together.  The operands are valid records, so `MAX - right` does not
wrap. -/
def extentCanMergeLeft (left right : XfsBmbtIrec) : Bool :=
  if left.blockcount > maxBlockcount - right.blockcount then false
  else left.startoff + left.blockcount = right.startoff ∧ left.startblock + left.blockcount = right.startblock ∧
    left.unwritten = right.unwritten

/-- `bmbt_extent_list_is_ordered`: every record valid, each starting at or after the
end of the one before. -/
def bmbtExtentListIsOrdered : List XfsBmbtIrec → Bool
  | [] => true
  | [a] => bmbtValidIrec a
  | a :: b :: rest => bmbtValidIrec a && decide (bmbtFileEndExclusive a ≤ b.startoff) &&
      bmbtExtentListIsOrdered (b :: rest)

/-- `XfsBmapResult`. -/
structure XfsBmapResult where
  isHole : Bool
  startblock : Nat
  blockcount : Nat
  unwritten : Bool
deriving DecidableEq, Repr

/-- `~(xfs_filblks_t)0`: no mapped block at or after the one asked for. -/
def holeToEof : Nat := 2 ^ 64 - 1

/-- `e` covers file block `fb`. -/
def XfsBmbtIrec.Covers (e : XfsBmbtIrec) (fb : Nat) : Prop := e.startoff ≤ fb ∧ fb < bmbtFileEndExclusive e

instance (e : XfsBmbtIrec) (fb : Nat) : Decidable (e.Covers fb) := inferInstanceAs (Decidable (_ ∧ _))

/-! ## The map a fork stands for

The data fork is, abstractly, a partial map from file block to disk block and state.
An extent adds a run of consecutive blocks to it, and a lookup answers for one block
and the run that follows it. -/

/-- What extent `e` says of file block `fb`. -/
def XfsBmbtIrec.mapsTo (e : XfsBmbtIrec) (fb : Nat) : Option (Nat × Bool) :=
  if e.Covers fb then some (e.startblock + (fb - e.startoff), e.unwritten) else none

/-- `M ∪ e`. -/
def addExtent (M : Nat → Option (Nat × Bool)) (e : XfsBmbtIrec) : Nat → Option (Nat × Bool) :=
  fun fb => (e.mapsTo fb).or (M fb)

/-- `e` covers no block of `dom M`. -/
def DisjointFrom (M : Nat → Option (Nat × Bool)) (e : XfsBmbtIrec) : Prop :=
  ∀ fb, e.Covers fb → M fb = none

/-- What a lookup of `fb` owes the map `M`: a mapped block with a run of blocks mapped
consecutively after it, or a hole with a run of unmapped blocks, `holeToEof` standing
for every block from `fb` on. -/
def LookupSpec (M : Nat → Option (Nat × Bool)) (fb : Nat) (r : XfsBmapResult) : Prop :=
  match M fb with
  | some (b, u) => r.isHole = false ∧ r.startblock = b ∧ r.unwritten = u ∧ 1 ≤ r.blockcount ∧
      ∀ i < r.blockcount, M (fb + i) = some (b + i, u)
  | none => r.isHole = true ∧ 1 ≤ r.blockcount ∧ (∀ i < r.blockcount, M (fb + i) = none) ∧
      (r.blockcount = holeToEof → ∀ fb', fb ≤ fb' → M fb' = none)

/-- The map of an extent list: the first extent covering a block gives it. -/
def extentMap : List XfsBmbtIrec → Nat → Option (Nat × Bool)
  | [], _ => none
  | e :: es, fb => (e.mapsTo fb).or (extentMap es fb)

/-- The invariant of every extent list a fork holds: each record valid, and each
ending at or before the start of every later one. -/
def OrderedExtents (l : List XfsBmbtIrec) : Prop :=
  (∀ e ∈ l, bmbtValidIrec e = true) ∧ l.Pairwise fun a b => bmbtFileEndExclusive a ≤ b.startoff

/-! ## Adding an extent -/

/-- One step of `insert_or_merge_extent` onto the records written so far, the last
written first: `-EIO` if the last one runs past `r`, a merge if it can absorb `r`,
otherwise `r` is written after it.  The pending new extent and each later record go
through the same step. -/
def pushOrMerge : List XfsBmbtIrec → XfsBmbtIrec → Except Errno (List XfsBmbtIrec)
  | [], r => .ok [r]
  | last :: acc, r =>
    if bmbtFileEndExclusive last > r.startoff then .error .eio
    else if extentCanMergeLeft last r then .ok ({ last with blockcount := last.blockcount + r.blockcount } :: acc)
    else .ok (r :: last :: acc)

/-- `pushOrMerge` over the records in order. -/
def pushAll : List XfsBmbtIrec → List XfsBmbtIrec → Except Errno (List XfsBmbtIrec)
  | acc, [] => .ok acc
  | acc, r :: rs => (pushOrMerge acc r).bind fun acc => pushAll acc rs

/-- `insert_or_merge_extent`: the records starting before the new extent are copied
as they are, then the new extent and the rest go through `pushOrMerge`. -/
def insertOrMergeExtent (oldList : List XfsBmbtIrec) (newExt : XfsBmbtIrec) : Except Errno (List XfsBmbtIrec) :=
  if !bmbtValidIrec newExt || !bmbtExtentListIsOrdered oldList then .error .einval
  else
    let copied := oldList.takeWhile fun r => r.startoff < newExt.startoff
    let rest := oldList.dropWhile fun r => r.startoff < newExt.startoff
    (pushAll copied.reverse (newExt :: rest)).map List.reverse

/-- The extents branch of `try_extents_fast_add`, on a list that can hold
`inlineCapacity` records: `none` leaves the add to the general path, `some` is the
list it produced. -/
def tryExtentsFastAdd (list : List XfsBmbtIrec) (inlineCapacity : Nat) (newExt : XfsBmbtIrec) :
    Option (List XfsBmbtIrec) :=
  if inlineCapacity = 0 then none
  else
    match list.getLast? with
    | none => if 1 ≤ inlineCapacity then some [newExt] else none
    | some last =>
      if bmbtFileEndExclusive last > newExt.startoff then none
      else if extentCanMergeLeft last newExt then
        some (list.dropLast ++ [{ last with blockcount := last.blockcount + newExt.blockcount }])
      else if list.length ≥ inlineCapacity then none
      else some (list ++ [newExt])

/-! ## Looking up a block -/

/-- `set_hole_result`. -/
def setHoleResult (blockcount : Nat) : XfsBmapResult := ⟨true, nullFsBlock, blockcount, false⟩

/-- The answer for a block inside extent `e`. -/
def mappedResult (e : XfsBmbtIrec) (fileBlock : Nat) : XfsBmapResult :=
  ⟨false, e.startblock + (fileBlock - e.startoff), e.blockcount - (fileBlock - e.startoff), e.unwritten⟩

/-- The binary search of `bmap_lookup_extents` over `[lo, hi]` of the records
`entry i`, also run by the one-leaf path of `bmap_lookup_btree`: the index of the
record holding `fileBlock`, or `none` with the final `lo`. -/
def rangeSearch (entry : Int → XfsBmbtIrec) (fileBlock : Nat) : Nat → Int → Int → Option Int × Int
  | 0, lo, _ => (none, lo)
  | fuel + 1, lo, hi =>
    if lo ≤ hi then
      if fileBlock < (entry ((lo + hi) / 2)).startoff then rangeSearch entry fileBlock fuel lo ((lo + hi) / 2 - 1)
      else if fileBlock ≥ (entry ((lo + hi) / 2)).startoff + (entry ((lo + hi) / 2)).blockcount then
        rangeSearch entry fileBlock fuel ((lo + hi) / 2 + 1) hi
      else (some ((lo + hi) / 2), lo)
    else (none, lo)

/-- `bmap_lookup_extents`, 0-based over the list. -/
def bmapLookupExtents (list : List XfsBmbtIrec) (fileBlock : Nat) : XfsBmapResult :=
  if list.length = 0 then setHoleResult holeToEof
  else
    match rangeSearch (fun i => list.getD i.toNat default) fileBlock (list.length + 1) 0 (list.length - 1) with
    | (some found, _) => mappedResult (list.getD found.toNat default) fileBlock
    | (none, lo) =>
      if lo < list.length then setHoleResult ((list.getD lo.toNat default).startoff - fileBlock)
      else setHoleResult holeToEof

/-! ## Records and their map -/

section Records

variable {e l r : XfsBmbtIrec} {fb : Nat}

theorem bmbtValidIrec_iff : bmbtValidIrec e = true ↔
    1 ≤ e.blockcount ∧ e.blockcount ≤ maxBlockcount ∧ e.startoff + e.blockcount ≤ maxStartoff + 1 ∧
      e.startblock + e.blockcount ≤ maxStartblock + 1 := by
  unfold bmbtValidIrec nullFsBlock maxStartoff maxStartblock maxBlockcount
  split_ifs with h <;> simp only [decide_eq_true_eq, false_iff] <;> omega

theorem XfsBmbtIrec.mapsTo_of_covers (h : e.Covers fb) : e.mapsTo fb = some (e.startblock + (fb - e.startoff), e.unwritten) :=
  if_pos h

theorem XfsBmbtIrec.mapsTo_of_not_covers (h : ¬e.Covers fb) : e.mapsTo fb = none := if_neg h

theorem XfsBmbtIrec.mapsTo_eq_none_iff : e.mapsTo fb = none ↔ ¬e.Covers fb := by
  unfold XfsBmbtIrec.mapsTo
  split_ifs with h <;> simp [h]

/-- A merged record maps what its two halves mapped. -/
theorem mapsTo_merge (hc : extentCanMergeLeft l r = true) :
    ({ l with blockcount := l.blockcount + r.blockcount } : XfsBmbtIrec).mapsTo fb = (l.mapsTo fb).or (r.mapsTo fb) := by
  unfold extentCanMergeLeft at hc
  split_ifs at hc
  simp only [decide_eq_true_eq] at hc
  obtain ⟨hoff, hblk, hunw⟩ := hc
  by_cases hl : l.Covers fb
  · have hin : ({ l with blockcount := l.blockcount + r.blockcount } : XfsBmbtIrec).Covers fb := by
      unfold XfsBmbtIrec.Covers bmbtFileEndExclusive at *; dsimp only; omega
    rw [XfsBmbtIrec.mapsTo_of_covers hin, XfsBmbtIrec.mapsTo_of_covers hl, Option.some_or]
  · rw [XfsBmbtIrec.mapsTo_of_not_covers hl, Option.none_or]
    by_cases hr : r.Covers fb
    · have hin : ({ l with blockcount := l.blockcount + r.blockcount } : XfsBmbtIrec).Covers fb := by
        unfold XfsBmbtIrec.Covers bmbtFileEndExclusive at *; dsimp only; omega
      rw [XfsBmbtIrec.mapsTo_of_covers hin, XfsBmbtIrec.mapsTo_of_covers hr]
      unfold XfsBmbtIrec.Covers bmbtFileEndExclusive at hl hr
      simp only [Option.some.injEq, Prod.mk.injEq, hunw, and_true]
      omega
    · have hout : ¬({ l with blockcount := l.blockcount + r.blockcount } : XfsBmbtIrec).Covers fb := by
        unfold XfsBmbtIrec.Covers bmbtFileEndExclusive at *; dsimp only; omega
      rw [XfsBmbtIrec.mapsTo_of_not_covers hout, XfsBmbtIrec.mapsTo_of_not_covers hr]

theorem bmbtValidIrec_merge (hl : bmbtValidIrec l = true) (hr : bmbtValidIrec r = true)
    (hc : extentCanMergeLeft l r = true) :
    bmbtValidIrec { l with blockcount := l.blockcount + r.blockcount } = true := by
  rw [bmbtValidIrec_iff] at hl hr ⊢
  unfold extentCanMergeLeft at hc
  split_ifs at hc with hmax
  simp only [decide_eq_true_eq] at hc
  dsimp only
  omega

end Records

section Map

variable {l l₁ l₂ : List XfsBmbtIrec} {e : XfsBmbtIrec} {fb : Nat}

@[simp] theorem extentMap_nil : extentMap [] fb = none := rfl

theorem extentMap_cons : extentMap (e :: l) fb = (e.mapsTo fb).or (extentMap l fb) := rfl

theorem extentMap_append : extentMap (l₁ ++ l₂) fb = (extentMap l₁ fb).or (extentMap l₂ fb) := by
  induction l₁ with
  | nil => simp
  | cons a l₁ ih => simp only [List.cons_append, extentMap_cons, ih, Option.or_assoc]

theorem extentMap_eq_none_iff : extentMap l fb = none ↔ ∀ x ∈ l, ¬x.Covers fb := by
  induction l with
  | nil => simp
  | cons a l ih => simp [extentMap_cons, Option.or_eq_none_iff, XfsBmbtIrec.mapsTo_eq_none_iff, ih]

/-- On an ordered list the extent covering a block is the only one, so it gives the
block's mapping. -/
theorem extentMap_eq_of_mem (hl : OrderedExtents l) (he : e ∈ l) (hc : e.Covers fb) :
    extentMap l fb = e.mapsTo fb := by
  induction l with
  | nil => cases he
  | cons a l ih =>
    have hrest : OrderedExtents l := ⟨fun x hx => hl.1 x (List.mem_cons_of_mem a hx), hl.2.of_cons⟩
    rw [extentMap_cons]
    rcases List.mem_cons.mp he with rfl | he'
    · rw [XfsBmbtIrec.mapsTo_of_covers hc, Option.some_or]
    · have hnot : ¬a.Covers fb := by
        have hle := List.rel_of_pairwise_cons hl.2 he'
        unfold XfsBmbtIrec.Covers at hc ⊢
        omega
      rw [XfsBmbtIrec.mapsTo_of_not_covers hnot, Option.none_or, ih hrest he']

theorem OrderedExtents.blockcount_pos (hl : OrderedExtents l) (he : e ∈ l) : 1 ≤ e.blockcount :=
  (bmbtValidIrec_iff.mp (hl.1 e he)).1

/-- Two extents of which one is valid share a block unless one ends before the
other starts. -/
theorem disjointFrom_extentMap_iff (hl : OrderedExtents l) (he : bmbtValidIrec e = true) :
    DisjointFrom (extentMap l) e ↔
      ∀ x ∈ l, bmbtFileEndExclusive x ≤ e.startoff ∨ bmbtFileEndExclusive e ≤ x.startoff := by
  have hepos := (bmbtValidIrec_iff.mp he).1
  constructor
  · intro hd x hx
    by_contra hover
    have hxpos := hl.blockcount_pos hx
    let fb := max x.startoff e.startoff
    have hce : e.Covers fb := by unfold XfsBmbtIrec.Covers bmbtFileEndExclusive at *; omega
    have hcx : x.Covers fb := by unfold XfsBmbtIrec.Covers bmbtFileEndExclusive at *; omega
    have hnone := extentMap_eq_none_iff.mp (hd fb hce) x hx
    exact hnone hcx
  · intro hsep fb hc
    refine extentMap_eq_none_iff.mpr fun x hx hcx => ?_
    have := hsep x hx
    unfold XfsBmbtIrec.Covers at hc hcx
    omega

end Map

/-! ## The ordering check -/

section Ordered

variable {l A : List XfsBmbtIrec} {a b x : XfsBmbtIrec}

theorem OrderedExtents.of_cons (hl : OrderedExtents (a :: l)) : OrderedExtents l :=
  ⟨fun x hx => hl.1 x (List.mem_cons_of_mem a hx), hl.2.of_cons⟩

theorem OrderedExtents.sublist {l' : List XfsBmbtIrec} (hl : OrderedExtents l) (hs : l'.Sublist l) :
    OrderedExtents l' :=
  ⟨fun x hx => hl.1 x (hs.subset hx), hl.2.sublist hs⟩

/-- Ending before a record's start is ending before every later record's start. -/
theorem orderedExtents_cons_cons : OrderedExtents (a :: b :: l) ↔
    bmbtValidIrec a = true ∧ bmbtFileEndExclusive a ≤ b.startoff ∧ OrderedExtents (b :: l) := by
  constructor
  · intro h
    exact ⟨h.1 a List.mem_cons_self, List.rel_of_pairwise_cons h.2 List.mem_cons_self, h.of_cons⟩
  · rintro ⟨ha, hab, hbl⟩
    refine ⟨?_, List.Pairwise.cons ?_ hbl.2⟩
    · intro x hx
      rcases List.mem_cons.mp hx with rfl | hx
      · exact ha
      · exact hbl.1 x hx
    · intro x hx
      rcases List.mem_cons.mp hx with rfl | hx
      · exact hab
      · have := List.rel_of_pairwise_cons hbl.2 hx
        unfold bmbtFileEndExclusive at *
        omega

theorem bmbtExtentListIsOrdered_iff : ∀ l, bmbtExtentListIsOrdered l = true ↔ OrderedExtents l
  | [] => by simp [bmbtExtentListIsOrdered, OrderedExtents]
  | [a] => by simp [bmbtExtentListIsOrdered, OrderedExtents]
  | a :: b :: l => by
    rw [orderedExtents_cons_cons, ← bmbtExtentListIsOrdered_iff (b :: l)]
    simp [bmbtExtentListIsOrdered, and_assoc]

theorem orderedExtents_append_singleton : OrderedExtents (A ++ [x]) ↔
    OrderedExtents A ∧ bmbtValidIrec x = true ∧ ∀ a ∈ A, bmbtFileEndExclusive a ≤ x.startoff := by
  simp only [OrderedExtents, List.mem_append, List.mem_singleton, List.pairwise_append,
    List.pairwise_singleton, true_and]
  constructor
  · rintro ⟨hv, hp, hx⟩
    exact ⟨⟨fun a ha => hv a (Or.inl ha), hp⟩, hv x (Or.inr rfl), fun a ha => hx a ha x rfl⟩
  · rintro ⟨⟨hv, hp⟩, hvx, hx⟩
    refine ⟨fun a ha => ?_, hp, fun a ha b hb => hb ▸ hx a ha⟩
    rcases ha with ha | rfl
    · exact hv a ha
    · exact hvx

end Ordered

/-! ## `insert_or_merge_extent` -/

/-- Where the records written so far end, the last written first; `0` before the
first, which any record may follow. -/
def writtenEnd (acc : List XfsBmbtIrec) : Nat := (acc.head?.map bmbtFileEndExclusive).getD 0

/-- Each record starting at or after the end of the one before, the first at or after
`b`. -/
def ChainsFrom : Nat → List XfsBmbtIrec → Prop
  | _, [] => True
  | b, r :: rs => b ≤ r.startoff ∧ ChainsFrom (bmbtFileEndExclusive r) rs

section Insert

variable {acc acc' S l : List XfsBmbtIrec} {r e : XfsBmbtIrec}

theorem pushOrMerge_cons {last : XfsBmbtIrec} : pushOrMerge (last :: acc) r =
    if bmbtFileEndExclusive last > r.startoff then .error .eio
    else if extentCanMergeLeft last r then .ok ({ last with blockcount := last.blockcount + r.blockcount } :: acc)
    else .ok (r :: last :: acc) := rfl

theorem pushOrMerge_ok (h : pushOrMerge acc r = .ok acc') :
    writtenEnd acc ≤ r.startoff ∧ writtenEnd acc' = bmbtFileEndExclusive r := by
  cases acc with
  | nil => cases h; simp [writtenEnd]
  | cons last acc =>
    rw [pushOrMerge_cons] at h
    split_ifs at h with hlt hm
    · cases h
      have hoff : last.startoff + last.blockcount = r.startoff := by
        unfold extentCanMergeLeft at hm
        split_ifs at hm
        simp only [decide_eq_true_eq] at hm
        exact hm.1
      simp only [writtenEnd, List.head?_cons, Option.map_some, Option.getD_some, bmbtFileEndExclusive] at hlt ⊢
      omega
    · cases h
      simp only [writtenEnd, List.head?_cons, Option.map_some, Option.getD_some, and_true] at hlt ⊢
      omega

theorem pushOrMerge_eq_error (h : ¬writtenEnd acc ≤ r.startoff) : pushOrMerge acc r = .error .eio := by
  cases acc with
  | nil => simp [writtenEnd] at h
  | cons last acc =>
    simp only [writtenEnd, List.head?_cons, Option.map_some, Option.getD_some] at h
    rw [pushOrMerge_cons, if_pos (show bmbtFileEndExclusive last > r.startoff by omega)]

theorem pushOrMerge_isOk (h : writtenEnd acc ≤ r.startoff) : ∃ acc', pushOrMerge acc r = .ok acc' := by
  cases acc with
  | nil => exact ⟨_, rfl⟩
  | cons last acc =>
    simp only [writtenEnd, List.head?_cons, Option.map_some, Option.getD_some] at h
    rw [pushOrMerge_cons, if_neg (by omega)]
    split_ifs
    · exact ⟨_, rfl⟩
    · exact ⟨_, rfl⟩

/-- One step keeps the records written ordered and adds `r`'s blocks to their map. -/
theorem pushOrMerge_spec (h : pushOrMerge acc r = .ok acc') (hacc : OrderedExtents acc.reverse)
    (hr : bmbtValidIrec r = true) :
    OrderedExtents acc'.reverse ∧ ∀ fb, extentMap acc'.reverse fb = (extentMap acc.reverse fb).or (r.mapsTo fb) := by
  cases acc with
  | nil =>
    cases h
    exact ⟨⟨by simpa using hr, List.pairwise_singleton _ _⟩, fun fb => by simp [extentMap_cons]⟩
  | cons last acc =>
    rw [List.reverse_cons] at hacc
    obtain ⟨hA, hlast, hbelow⟩ := orderedExtents_append_singleton.mp hacc
    rw [pushOrMerge_cons] at h
    split_ifs at h with hlt hm
    · cases h
      rw [List.reverse_cons]
      refine ⟨orderedExtents_append_singleton.mpr ⟨hA, bmbtValidIrec_merge hlast hr hm, hbelow⟩, fun fb => ?_⟩
      simp only [List.reverse_cons, extentMap_append, extentMap_cons, extentMap_nil, Option.or_none,
        mapsTo_merge hm, Option.or_assoc]
    · cases h
      simp only [List.reverse_cons, List.append_assoc, List.singleton_append] at hacc ⊢
      refine ⟨?_, fun fb => ?_⟩
      · rw [← List.singleton_append, ← List.append_assoc]
        refine orderedExtents_append_singleton.mpr ⟨hacc, hr, fun a ha => ?_⟩
        rcases List.mem_append.mp ha with ha | ha
        · have := hbelow a ha
          unfold bmbtFileEndExclusive at *
          omega
        · rw [List.mem_singleton.mp ha]
          omega
      · simp only [extentMap_append, extentMap_cons, extentMap_nil, Option.or_none, Option.or_assoc]

theorem pushAll_cons : pushAll acc (r :: S) = (pushOrMerge acc r).bind fun acc => pushAll acc S := rfl

theorem pushAll_isOk_iff : (∃ acc', pushAll acc S = .ok acc') ↔ ChainsFrom (writtenEnd acc) S := by
  induction S generalizing acc with
  | nil => simp [pushAll, ChainsFrom]
  | cons r S ih =>
    rw [pushAll_cons, ChainsFrom]
    cases h1 : pushOrMerge acc r with
    | error err =>
      have hlt : ¬writtenEnd acc ≤ r.startoff := fun hle => by
        obtain ⟨acc₁, h⟩ := pushOrMerge_isOk hle
        rw [h1] at h
        cases h
      simp [Except.bind, hlt]
    | ok acc₁ =>
      obtain ⟨hle, hend⟩ := pushOrMerge_ok h1
      simp only [Except.bind, ih, hend, hle, true_and]

theorem pushAll_eq_error (h : ¬ChainsFrom (writtenEnd acc) S) : pushAll acc S = .error .eio := by
  induction S generalizing acc with
  | nil => exact absurd trivial h
  | cons r S ih =>
    rw [pushAll_cons]
    by_cases hle : writtenEnd acc ≤ r.startoff
    · obtain ⟨acc₁, h1⟩ := pushOrMerge_isOk hle
      rw [h1]
      have hend := (pushOrMerge_ok h1).2
      exact ih (by rw [hend]; exact fun hc => h ⟨hle, hc⟩)
    · rw [pushOrMerge_eq_error hle]
      rfl

theorem pushAll_spec (h : pushAll acc S = .ok acc') (hacc : OrderedExtents acc.reverse)
    (hS : ∀ r ∈ S, bmbtValidIrec r = true) :
    OrderedExtents acc'.reverse ∧ ∀ fb, extentMap acc'.reverse fb = (extentMap acc.reverse fb).or (extentMap S fb) := by
  induction S generalizing acc with
  | nil => cases h; exact ⟨hacc, fun fb => by simp⟩
  | cons r S ih =>
    rw [pushAll_cons] at h
    cases h1 : pushOrMerge acc r with
    | error err => rw [h1] at h; cases h
    | ok acc₁ =>
      rw [h1] at h
      obtain ⟨hord₁, hmap₁⟩ := pushOrMerge_spec h1 hacc (hS r List.mem_cons_self)
      obtain ⟨hord, hmap⟩ := ih h hord₁ fun x hx => hS x (List.mem_cons_of_mem r hx)
      exact ⟨hord, fun fb => by rw [hmap, hmap₁, extentMap_cons, Option.or_assoc]⟩

/-- With `e` disjoint from `M`, adding it first or last is the same map. -/
theorem addExtent_eq_or {M : Nat → Option (Nat × Bool)} (hd : DisjointFrom M e) (fb : Nat) :
    addExtent M e fb = (M fb).or (e.mapsTo fb) := by
  unfold addExtent
  by_cases hc : e.Covers fb
  · rw [hd fb hc, Option.none_or, Option.or_none]
  · rw [XfsBmbtIrec.mapsTo_of_not_covers hc, Option.none_or, Option.or_none]

/-- In an ordered list the last record ends last. -/
theorem OrderedExtents.end_le_last {last x : XfsBmbtIrec} (hl : OrderedExtents (l ++ [last]))
    (hx : x ∈ l ++ [last]) : bmbtFileEndExclusive x ≤ bmbtFileEndExclusive last := by
  obtain ⟨-, -, hbelow⟩ := orderedExtents_append_singleton.mp hl
  rcases List.mem_append.mp hx with hx | hx
  · have := hbelow x hx
    unfold bmbtFileEndExclusive at *
    omega
  · rw [List.mem_singleton.mp hx]

theorem writtenEnd_reverse_le_iff {b : Nat} (hl : OrderedExtents l) :
    writtenEnd l.reverse ≤ b ↔ ∀ x ∈ l, bmbtFileEndExclusive x ≤ b := by
  rcases List.eq_nil_or_concat l with rfl | ⟨L, last, rfl⟩
  · simp [writtenEnd]
  · rw [List.concat_eq_append] at hl ⊢
    simp only [writtenEnd, List.reverse_append, List.reverse_singleton, List.singleton_append, List.head?_cons,
      Option.map_some, Option.getD_some]
    constructor
    · exact fun h x hx => le_trans (hl.end_le_last hx) h
    · exact fun h => h last (List.mem_append_right L (List.mem_singleton_self last))

/-- An ordered run chains from `b` exactly when it starts at or after `b`. -/
theorem chainsFrom_iff {b : Nat} (hl : OrderedExtents l) : ChainsFrom b l ↔ ∀ x ∈ l, b ≤ x.startoff := by
  induction l generalizing b with
  | nil => simp [ChainsFrom]
  | cons a l ih =>
    have hafter : ∀ y ∈ l, bmbtFileEndExclusive a ≤ y.startoff := fun y hy => List.rel_of_pairwise_cons hl.2 hy
    rw [ChainsFrom, ih hl.of_cons]
    constructor
    · rintro ⟨hba, -⟩ y hy
      rcases List.mem_cons.mp hy with rfl | hy
      · exact hba
      · have := hafter y hy
        unfold bmbtFileEndExclusive at this
        omega
    · exact fun h => ⟨h a List.mem_cons_self, hafter⟩

theorem le_startoff_of_mem_dropWhile {x : XfsBmbtIrec} {s : Nat} (hl : OrderedExtents l)
    (hx : x ∈ l.dropWhile fun r => decide (r.startoff < s)) : s ≤ x.startoff := by
  induction l with
  | nil => cases hx
  | cons a l ih =>
    rw [List.dropWhile_cons] at hx
    split_ifs at hx with ha
    · exact ih hl.of_cons hx
    · simp only [decide_eq_true_eq, not_lt] at ha
      rcases List.mem_cons.mp hx with rfl | hx
      · exact ha
      · have := List.rel_of_pairwise_cons hl.2 hx
        unfold bmbtFileEndExclusive at this
        omega

/-- The new extent can be placed between the copied records and the rest exactly when
it is disjoint from the list. -/
theorem chainsFrom_insert_iff (hl : OrderedExtents l) (he : bmbtValidIrec e = true) :
    ChainsFrom (writtenEnd (l.takeWhile fun r => decide (r.startoff < e.startoff)).reverse)
        (e :: l.dropWhile fun r => decide (r.startoff < e.startoff)) ↔
      DisjointFrom (extentMap l) e := by
  have hsplit : (l.takeWhile fun r => decide (r.startoff < e.startoff)) ++
      (l.dropWhile fun r => decide (r.startoff < e.startoff)) = l := List.takeWhile_append_dropWhile
  have hcopied := hl.sublist (List.takeWhile_sublist (fun r => decide (r.startoff < e.startoff)))
  have hrest := hl.sublist (List.dropWhile_sublist (fun r => decide (r.startoff < e.startoff)))
  have hepos := (bmbtValidIrec_iff.mp he).1
  rw [ChainsFrom, writtenEnd_reverse_le_iff hcopied, chainsFrom_iff hrest, disjointFrom_extentMap_iff hl he]
  constructor
  · rintro ⟨hc, hr⟩ x hx
    rw [← hsplit] at hx
    rcases List.mem_append.mp hx with hx | hx
    · exact Or.inl (hc x hx)
    · exact Or.inr (hr x hx)
  · intro h
    refine ⟨fun x hx => ?_, fun x hx => ?_⟩
    · have hlt := of_decide_eq_true (@List.mem_takeWhile_imp _ (fun r : XfsBmbtIrec => decide (r.startoff < e.startoff)) _ _ hx)
      have := h x (hsplit ▸ List.mem_append_left _ hx)
      unfold bmbtFileEndExclusive at this ⊢
      omega
    · have hle := le_startoff_of_mem_dropWhile hl hx
      have hxpos := hl.blockcount_pos (hsplit ▸ List.mem_append_right _ hx)
      have := h x (hsplit ▸ List.mem_append_right _ hx)
      unfold bmbtFileEndExclusive at this ⊢
      omega

theorem insertOrMergeExtent_eq (hl : OrderedExtents l) (he : bmbtValidIrec e = true) :
    insertOrMergeExtent l e =
      (pushAll (l.takeWhile fun r => decide (r.startoff < e.startoff)).reverse
        (e :: l.dropWhile fun r => decide (r.startoff < e.startoff))).map List.reverse := by
  simp [insertOrMergeExtent, he, (bmbtExtentListIsOrdered_iff l).mpr hl]

/-- `insert_or_merge_extent` on a disjoint extent: an ordered list mapping `M ∪ e`. -/
theorem insertOrMergeExtent_ok (hl : OrderedExtents l) (he : bmbtValidIrec e = true)
    (hd : DisjointFrom (extentMap l) e) :
    ∃ l', insertOrMergeExtent l e = .ok l' ∧ OrderedExtents l' ∧ extentMap l' = addExtent (extentMap l) e := by
  obtain ⟨acc', hacc'⟩ := pushAll_isOk_iff.mpr ((chainsFrom_insert_iff hl he).mpr hd)
  have hsplit : (l.takeWhile fun r => decide (r.startoff < e.startoff)) ++
      (l.dropWhile fun r => decide (r.startoff < e.startoff)) = l := List.takeWhile_append_dropWhile
  have hcopied := hl.sublist (List.takeWhile_sublist (fun r => decide (r.startoff < e.startoff)))
  have hS : ∀ r ∈ e :: l.dropWhile fun r => decide (r.startoff < e.startoff), bmbtValidIrec r = true := by
    intro r hr
    rcases List.mem_cons.mp hr with rfl | hr
    · exact he
    · exact hl.1 r ((List.dropWhile_sublist _).subset hr)
  obtain ⟨hord, hmap⟩ := pushAll_spec hacc' (by rwa [List.reverse_reverse]) hS
  refine ⟨acc'.reverse, by rw [insertOrMergeExtent_eq hl he, hacc']; rfl, hord, funext fun fb => ?_⟩
  have hsplit_map : ∀ fb, extentMap l fb =
      (extentMap (l.takeWhile fun r => decide (r.startoff < e.startoff)) fb).or
        (extentMap (l.dropWhile fun r => decide (r.startoff < e.startoff)) fb) := fun fb => by
    rw [← extentMap_append, hsplit]
  rw [hmap, List.reverse_reverse, addExtent_eq_or hd, hsplit_map, extentMap_cons]
  by_cases hc : e.Covers fb
  · have hnone := hd fb hc
    rw [hsplit_map, Option.or_eq_none_iff] at hnone
    rw [hnone.1, hnone.2, Option.none_or, Option.or_none, Option.none_or, Option.none_or]
  · rw [XfsBmbtIrec.mapsTo_of_not_covers hc, Option.none_or, Option.or_none]

/-- An extent overlapping the list is refused with `-EIO`. -/
theorem insertOrMergeExtent_error (hl : OrderedExtents l) (he : bmbtValidIrec e = true)
    (hd : ¬DisjointFrom (extentMap l) e) : insertOrMergeExtent l e = .error .eio := by
  rw [insertOrMergeExtent_eq hl he, pushAll_eq_error ((chainsFrom_insert_iff hl he).not.mpr hd)]
  rfl

end Insert

/-! ## `try_extents_fast_add` -/

theorem tryExtentsFastAdd_spec {list l' : List XfsBmbtIrec} {cap : Nat} {e : XfsBmbtIrec}
    (hl : OrderedExtents list) (he : bmbtValidIrec e = true) (hcap : list.length ≤ cap)
    (h : tryExtentsFastAdd list cap e = some l') :
    DisjointFrom (extentMap list) e ∧ OrderedExtents l' ∧ extentMap l' = addExtent (extentMap list) e ∧
      l'.length ≤ cap := by
  unfold tryExtentsFastAdd at h
  have hcap0 : cap ≠ 0 := fun h0 => by simp [h0] at h
  rw [if_neg hcap0] at h
  rcases List.eq_nil_or_concat list with rfl | ⟨L, last, rfl⟩
  · simp only [List.getLast?_nil, show 1 ≤ cap by omega, if_true, Option.some.injEq] at h
    subst h
    refine ⟨fun fb _ => rfl, ⟨by simpa using he, List.pairwise_singleton _ _⟩, funext fun fb => ?_, by simp; omega⟩
    simp [addExtent, extentMap_cons]
  · rw [List.concat_eq_append] at hl hcap h ⊢
    simp only [List.getLast?_concat] at h
    have hend : ¬bmbtFileEndExclusive last > e.startoff := fun hgt => by simp [hgt] at h
    rw [if_neg hend] at h
    have hafter : ∀ x ∈ L ++ [last], bmbtFileEndExclusive x ≤ e.startoff := fun x hx =>
      le_trans (hl.end_le_last hx) (by omega)
    have hd : DisjointFrom (extentMap (L ++ [last])) e :=
      (disjointFrom_extentMap_iff hl he).mpr fun x hx => Or.inl (hafter x hx)
    obtain ⟨hA, hlast, hbelow⟩ := orderedExtents_append_singleton.mp hl
    split_ifs at h with hm hfull
    · simp only [Option.some.injEq] at h
      subst h
      simp only [List.dropLast_concat]
      refine ⟨hd, orderedExtents_append_singleton.mpr ⟨hA, bmbtValidIrec_merge hlast he hm, hbelow⟩,
        funext fun fb => ?_, by simpa using hcap⟩
      rw [addExtent_eq_or hd, extentMap_append, extentMap_append, extentMap_cons, extentMap_cons,
        extentMap_nil, Option.or_none, Option.or_none, mapsTo_merge hm, Option.or_assoc]
    · simp only [Option.some.injEq] at h
      subst h
      refine ⟨hd, orderedExtents_append_singleton.mpr ⟨hl, he, hafter⟩, funext fun fb => ?_,
        by simp only [List.length_append, List.length_singleton] at hfull ⊢; omega⟩
      rw [addExtent_eq_or hd, show extentMap (L ++ [last] ++ [e]) fb = (extentMap (L ++ [last]) fb).or (extentMap [e] fb)
        from extentMap_append, extentMap_cons, extentMap_nil, Option.or_none]

/-! ## What the lookups answer -/

section Answers

variable {M : Nat → Option (Nat × Bool)} {fb : Nat}

/-- A record covering `fb` whose mapping is the map's on all it covers answers a lookup
of `fb` with the rest of itself. -/
theorem lookupSpec_mappedResult {e : XfsBmbtIrec} (hc : e.Covers fb)
    (he : ∀ fb', e.Covers fb' → M fb' = e.mapsTo fb') : LookupSpec M fb (mappedResult e fb) := by
  have hM := he fb hc
  rw [XfsBmbtIrec.mapsTo_of_covers hc] at hM
  simp only [LookupSpec, hM]
  unfold XfsBmbtIrec.Covers bmbtFileEndExclusive at hc
  refine ⟨rfl, rfl, rfl, by simp only [mappedResult]; omega, fun i hi => ?_⟩
  simp only [mappedResult] at hi
  have hci : e.Covers (fb + i) := by unfold XfsBmbtIrec.Covers bmbtFileEndExclusive; omega
  rw [he _ hci, XfsBmbtIrec.mapsTo_of_covers hci, Option.some.injEq, Prod.mk.injEq]
  exact ⟨by omega, rfl⟩

theorem lookupSpec_hole {n : Nat} (hn : 1 ≤ n) (hnone : ∀ i < n, M (fb + i) = none)
    (heof : n = holeToEof → ∀ fb', fb ≤ fb' → M fb' = none) : LookupSpec M fb (setHoleResult n) := by
  have h0 : M fb = none := hnone 0 (by omega)
  simp only [LookupSpec, h0]
  exact ⟨rfl, hn, hnone, heof⟩

/-- A hole up to the next mapped record's start. -/
theorem lookupSpec_hole_before {next : Nat} (hlt : fb < next) (hbound : next ≤ maxStartoff)
    (hnone : ∀ fb', fb ≤ fb' → fb' < next → M fb' = none) : LookupSpec M fb (setHoleResult (next - fb)) :=
  lookupSpec_hole (by omega) (fun i hi => hnone _ (by omega) (by omega))
    (fun heq => absurd heq (by unfold holeToEof maxStartoff at *; omega))

/-- A hole to the end of the file. -/
theorem lookupSpec_hole_eof (hnone : ∀ fb', fb ≤ fb' → M fb' = none) : LookupSpec M fb (setHoleResult holeToEof) :=
  lookupSpec_hole (by unfold holeToEof; omega) (fun i _ => hnone _ (by omega)) fun _ => hnone

end Answers

/-! ## The binary search over a run of records -/

/-- The records `entry L … entry H`, each at least a block long, each ending at or
before the start of every later one. -/
def RangeOrdered (entry : Int → XfsBmbtIrec) (L H : Int) : Prop :=
  (∀ i, L ≤ i → i ≤ H → 1 ≤ (entry i).blockcount) ∧
    ∀ i j, L ≤ i → i < j → j ≤ H → bmbtFileEndExclusive (entry i) ≤ (entry j).startoff

section RangeSearch

variable {entry : Int → XfsBmbtIrec} {L H : Int} {fb : Nat}

/-- What the search leaves: the record holding `fb`, or the first record starting
after it at `lo`, everything before `lo` ending at or before `fb`. -/
def RangeSearchOutcome (entry : Int → XfsBmbtIrec) (L H : Int) (fb : Nat) : Option Int × Int → Prop
  | (some m, _) => L ≤ m ∧ m ≤ H ∧ (entry m).Covers fb
  | (none, lo) => L ≤ lo ∧ lo ≤ H + 1 ∧ (∀ i, L ≤ i → i < lo → bmbtFileEndExclusive (entry i) ≤ fb) ∧
      ∀ i, lo ≤ i → i ≤ H → fb < (entry i).startoff

/-- The search keeps the records below `lo` ending by `fb` and those above `hi`
starting after it. -/
theorem rangeSearch_spec (hord : RangeOrdered entry L H) : ∀ (fuel : Nat) (lo hi : Int),
    hi + 1 - lo < fuel → L ≤ lo → hi ≤ H → lo ≤ hi + 1 →
    (∀ i, L ≤ i → i < lo → bmbtFileEndExclusive (entry i) ≤ fb) →
    (∀ i, hi < i → i ≤ H → fb < (entry i).startoff) →
    RangeSearchOutcome entry L H fb (rangeSearch entry fb fuel lo hi)
  | 0, _, _, hfuel, _, _, _, _, _ => absurd hfuel (by omega)
  | fuel + 1, lo, hi, hfuel, hL, hH, hlh, hbelow, habove => by
    have hstart_le : ∀ i, L ≤ i → i ≤ H → (entry i).startoff ≤ bmbtFileEndExclusive (entry i) := fun i _ _ => by
      unfold bmbtFileEndExclusive; omega
    rw [rangeSearch]
    by_cases hle : lo ≤ hi
    · rw [if_pos hle]
      have hm1 : lo ≤ (lo + hi) / 2 := by omega
      have hm2 : (lo + hi) / 2 ≤ hi := by omega
      by_cases hlt : fb < (entry ((lo + hi) / 2)).startoff
      · rw [if_pos hlt]
        refine rangeSearch_spec hord fuel _ _ (by omega) hL (by omega) (by omega) hbelow fun i hi' hiH => ?_
        rcases lt_or_eq_of_le (show (lo + hi) / 2 ≤ i by omega) with hmi | rfl
        · by_cases hih : i ≤ hi
          · have := hord.2 _ i (by omega) hmi hiH
            have := hstart_le ((lo + hi) / 2) (by omega) (by omega)
            omega
          · exact habove i (by omega) hiH
        · exact hlt
      · rw [if_neg hlt]
        by_cases hge : fb ≥ (entry ((lo + hi) / 2)).startoff + (entry ((lo + hi) / 2)).blockcount
        · rw [if_pos hge]
          refine rangeSearch_spec hord fuel _ _ (by omega) (by omega) hH (by omega) (fun i hLi hil => ?_) habove
          rcases lt_or_eq_of_le (show i ≤ (lo + hi) / 2 by omega) with him | rfl
          · by_cases hil' : i < lo
            · exact hbelow i hLi hil'
            · have := hord.2 i _ hLi him (by omega)
              have := hstart_le ((lo + hi) / 2) (by omega) (by omega)
              omega
          · unfold bmbtFileEndExclusive; omega
        · rw [if_neg hge]
          exact ⟨hm1.trans' hL, hm2.trans hH, by unfold XfsBmbtIrec.Covers bmbtFileEndExclusive; omega⟩
    · rw [if_neg hle]
      exact ⟨hL, by omega, hbelow, fun i hi' hiH => habove i (by omega) hiH⟩

end RangeSearch

/-! ## `bmap_lookup_extents` -/

theorem OrderedExtents.rangeOrdered {l : List XfsBmbtIrec} (hl : OrderedExtents l) :
    RangeOrdered (fun i => l.getD i.toNat default) 0 (l.length - 1) := by
  have hget : ∀ i : Int, 0 ≤ i → i ≤ l.length - 1 → l.getD i.toNat default ∈ l := fun i h0 h1 => by
    rw [List.getD_eq_getElem _ _ (by omega)]
    exact List.getElem_mem _
  refine ⟨fun i h0 h1 => hl.blockcount_pos (hget i h0 h1), fun i j h0 hij hj => ?_⟩
  dsimp only
  rw [List.getD_eq_getElem _ _ (by omega), List.getD_eq_getElem _ _ (by omega)]
  exact List.pairwise_iff_getElem.mp hl.2 _ _ _ _ (by omega)

/-- The extents-format lookup answers by the list's map. -/
theorem bmapLookupExtents_spec {l : List XfsBmbtIrec} (hl : OrderedExtents l) (fb : Nat) :
    LookupSpec (extentMap l) fb (bmapLookupExtents l fb) := by
  unfold bmapLookupExtents
  by_cases h0 : l.length = 0
  · rw [if_pos h0, List.length_eq_zero_iff.mp h0]
    exact lookupSpec_hole_eof fun _ _ => rfl
  rw [if_neg h0]
  have hout : RangeSearchOutcome (fun i => l.getD i.toNat default) 0 (l.length - 1) fb
      (rangeSearch (fun i => l.getD i.toNat default) fb (l.length + 1) 0 (l.length - 1)) :=
    rangeSearch_spec hl.rangeOrdered (l.length + 1) 0 (l.length - 1) (by omega) le_rfl le_rfl
      (by omega) (fun i h0 h1 => absurd h1 (by omega)) (fun i h1 h2 => absurd h2 (by omega))
  have hmem : ∀ i : Int, 0 ≤ i → i < l.length → l.getD i.toNat default ∈ l := fun i h0 h1 => by
    rw [List.getD_eq_getElem _ _ (by omega)]
    exact List.getElem_mem _
  have hidx : ∀ x ∈ l, ∃ i : Int, 0 ≤ i ∧ i < l.length ∧ l.getD i.toNat default = x := fun x hx => by
    obtain ⟨k, hk, rfl⟩ := List.getElem_of_mem hx
    exact ⟨k, by omega, by omega, by rw [List.getD_eq_getElem _ _ (by omega)]; simp⟩
  revert hout
  rcases rangeSearch (fun i => l.getD i.toNat default) fb (l.length + 1) 0 (l.length - 1) with ⟨_ | m, lo⟩
  · rintro ⟨hlo0, hloH, hbelow, habove⟩
    dsimp only at hbelow habove
    have hnone : ∀ fb', fb ≤ fb' → (lo < l.length → fb' < (l.getD lo.toNat default).startoff) →
        extentMap l fb' = none := fun fb' hfb hnext => by
      refine extentMap_eq_none_iff.mpr fun x hx hcx => ?_
      obtain ⟨i, hi0, hil, rfl⟩ := hidx x hx
      unfold XfsBmbtIrec.Covers at hcx
      by_cases hil' : i < lo
      · have := hbelow i hi0 hil'
        omega
      · have hlt := hnext (by omega)
        have := habove i (by omega) (by omega)
        rcases lt_or_eq_of_le (show lo ≤ i by omega) with hli | rfl
        · have hord : bmbtFileEndExclusive (l.getD lo.toNat default) ≤ (l.getD i.toNat default).startoff :=
            hl.rangeOrdered.2 lo i hlo0 hli (by omega)
          unfold bmbtFileEndExclusive at hord
          omega
        · omega
    dsimp only
    split_ifs with hlt
    · have hnext := habove lo le_rfl (by omega)
      obtain ⟨hpos, -, hbound, -⟩ := bmbtValidIrec_iff.mp (hl.1 _ (hmem lo hlo0 hlt))
      exact lookupSpec_hole_before hnext (by unfold maxStartoff at *; omega)
        fun fb' hfb hlt' => hnone fb' hfb fun _ => hlt'
    · exact lookupSpec_hole_eof fun fb' hfb => hnone fb' hfb fun h => absurd h hlt
  · rintro ⟨hm0, hmH, hc⟩
    dsimp only at hc
    exact lookupSpec_mappedResult hc fun fb' hc' => extentMap_eq_of_mem hl (hmem m hm0 (by omega)) hc'

end Wos.XfsBmap
