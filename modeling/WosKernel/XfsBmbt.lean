import Mathlib
import WosKernel.XfsBmapExtents
import WosKernel.Lib.ChunkedList

/-! # The block-map B+tree below the inode root

When the data fork is in btree format, the extent records sit in the leaves of a
B+tree whose blocks hang below the root kept in the inode (`xfs_bmap.cpp` reads that
root itself).  This module models the blocks the generic cursor of `xfs_btree.cpp`
walks, instantiated at `XfsBmbtTraits`: `xfs_btree_lookup` descending level by level
with its per-block binary search, the LE/GE adjustment at the leaf,
`xfs_btree_increment` climbing to the first level that can advance and coming down
its leftmost path, and `xfs_btree_get_rec`.

A block number is a position in the list of blocks the tree owns; a block holds either
records (a leaf) or keys and child pointers (a node).  The binary search is the one of
`WosKernel.XfsBtree`, on the start offsets the keys carry.

The shape the rebuild leaves is described level by level (`TreeShape`): the leaves
hold the extent list in order, the pointers of each level list the blocks of the level
below in order, and each key is the first start offset below it.  A cursor then stands
for one position of a level (`CursorAt`): the descent finds the last record starting
at or before the target (`xfsBtreeLookupBmbt_le`), the GE lookup the first record at or
after it, and the increment moves to the next position (`xfsBtreeIncrement_next`).
-/

namespace Wos.XfsBmap

open Wos.XfsBtree ChunkedList

/-- `XFS_BTREE_MAXLEVELS`. -/
def xfsBtreeMaxlevels : Nat := 9

/-- A bmbt block as the cursor reads it. -/
inductive BmbtBlock where
  | leaf (recs : List XfsBmbtIrec)
  | node (keys : List Nat) (ptrs : List Nat)
deriving DecidableEq, Repr, Inhabited

namespace BmbtBlock

/-- `bb_numrecs`. -/
def numrecs : BmbtBlock → Nat
  | leaf recs => recs.length
  | node keys _ => keys.length

def leafRecs : BmbtBlock → List XfsBmbtIrec
  | leaf recs => recs
  | node .. => []

/-- The keys `init_key_from_rec` takes from a leaf's records. -/
def leafKeys (blk : BmbtBlock) : List Nat := blk.leafRecs.map (·.startoff)

/-- The keys `key_at` reads from a node. -/
def nodeKeys : BmbtBlock → List Nat
  | leaf _ => []
  | node keys _ => keys

def nodePtrs : BmbtBlock → List Nat
  | leaf _ => []
  | node _ ptrs => ptrs

/-- `rec_at(i)`, 1-based. -/
def recAt (blk : BmbtBlock) (i : Nat) : XfsBmbtIrec := Wos.XfsBtree.recAt blk.leafRecs i

/-- `ptr_at(level, i)`, 1-based. -/
def ptrAt (blk : BmbtBlock) (i : Nat) : Nat := blk.nodePtrs.getD (i - 1) nullFsBlock

end BmbtBlock

/-- `XfsBmbtTraits::cmp_key`: the key's start offset against the target's. -/
def bmbtCmpKey (key target : Nat) : Ordering :=
  if key < target then .lt else if key > target then .gt else .eq

theorem bmbtCmpKey_eq (a b : Nat) : bmbtCmpKey a b = compare a b := by
  unfold bmbtCmpKey
  split_ifs with h1 h2
  · exact (compare_lt_iff_lt.mpr h1).symm
  · exact (compare_gt_iff_gt.mpr h2).symm
  · exact (compare_eq_iff_eq.mpr (by omega)).symm

/-- The bmbt as an instance of the generic tree, searched on start offsets. -/
def XfsBmbtTraits : Traits Nat := ⟨bmbtCmpKey, id, bmbtCmpKey_eq⟩

/-- `XfsBtreeLevel`: the block loaded at a level and the 1-based position in it. -/
structure XfsBtreeLevel where
  bp : BmbtBlock
  ptr : Nat
deriving DecidableEq, Repr

/-- `read_block`: a block number outside the tree's blocks fails to read. -/
def readBlock (store : List BmbtBlock) (b : Nat) : Except Errno BmbtBlock :=
  match store[b]? with
  | some blk => .ok blk
  | none => .error .eio

/-- The descent of `xfs_btree_lookup` from block `b` at `level`: the cursor levels from
the leaf up to `b`.  A node keeps the last key at or below the target (the first key
if all are above it); the leaf keeps the position after its binary search. -/
def lookupDescend (store : List BmbtBlock) (target : Nat) : Nat → Nat → Except Errno (List XfsBtreeLevel)
  | 0, b => do
    let blk ← readBlock store b
    if blk.numrecs = 0 then .error .enoent
    else .ok [⟨blk, leafPtr XfsBmbtTraits blk.leafKeys target⟩]
  | level + 1, b => do
    let blk ← readBlock store b
    if blk.numrecs = 0 then .error .enoent
    else
      let r := blockSearch XfsBmbtTraits.cmpKey blk.nodeKeys target (blk.numrecs + 1) 1 blk.numrecs 1 .eq
      let keyno := if r.2 = .gt ∧ r.1 > 1 then r.1 - 1 else r.1
      let below ← lookupDescend store target level (blk.ptrAt keyno)
      .ok (below ++ [⟨blk, keyno⟩])

/-- `xfs_btree_increment`, the leaf level first: advance in this block, or advance the
levels above and load the leftmost block under their new position. -/
def xfsBtreeIncrement (store : List BmbtBlock) : List XfsBtreeLevel → Except Errno (List XfsBtreeLevel)
  | [] => .error .enoent
  | ⟨blk, p⟩ :: upper =>
    if p + 1 ≤ blk.numrecs then .ok (⟨blk, p + 1⟩ :: upper)
    else do
      let upper' ← xfsBtreeIncrement store upper
      match upper' with
      | [] => .error .enoent
      | parent :: _ =>
        let child ← readBlock store (parent.bp.ptrAt parent.ptr)
        .ok (⟨child, 1⟩ :: upper')

/-- `xfs_btree_get_rec`. -/
def xfsBtreeGetRec (cur : List XfsBtreeLevel) : XfsBmbtIrec :=
  match cur with
  | [] => default
  | leaf :: _ => leaf.bp.recAt leaf.ptr

/-- `xfs_btree_lookup` on the bmbt from `rootBlock`, `nlevels` deep. -/
def xfsBtreeLookupBmbt (store : List BmbtBlock) (rootBlock nlevels target : Nat) (dir : XfsBtreeLookup) :
    Except Errno (List XfsBtreeLevel) :=
  if nlevels = 0 ∨ nlevels > xfsBtreeMaxlevels then .error .einval
  else do
    let cur ← lookupDescend store target (nlevels - 1) rootBlock
    match cur with
    | [] => .error .enoent
    | ⟨leaf, ptr⟩ :: upper =>
      let nr := leaf.numrecs
      let adjusted : Except Errno (List XfsBtreeLevel) :=
        match dir with
        | .le => if ptr < 1 then .error .enoent else .ok (⟨leaf, if ptr > nr then nr else ptr⟩ :: upper)
        | .eq =>
          if ptr < 1 ∨ ptr > nr then .error .enoent
          else if bmbtCmpKey (leaf.recAt ptr).startoff target ≠ .eq then .error .enoent
          else .ok (⟨leaf, ptr⟩ :: upper)
        | .ge =>
          let ptr := if ptr < 1 then 1 else ptr
          if ptr > nr then xfsBtreeIncrement store (⟨leaf, ptr⟩ :: upper)
          else if bmbtCmpKey (leaf.recAt ptr).startoff target = .lt then
            if ptr < nr then .ok (⟨leaf, ptr + 1⟩ :: upper) else xfsBtreeIncrement store (⟨leaf, ptr⟩ :: upper)
          else .ok (⟨leaf, ptr⟩ :: upper)
      let cur ← adjusted
      match cur with
      | [] => .error .enoent
      | at0 :: _ => if at0.ptr < 1 ∨ at0.ptr > at0.bp.numrecs then .error .enoent else .ok cur

/-! ## The shape of a built tree -/

/-- Block `b` of the tree (an empty leaf past the end, where `read_block` fails). -/
def blockAt (store : List BmbtBlock) (b : Nat) : BmbtBlock := store.getD b default

/-- The first start offset under block `b`. -/
def firstKey (store : List BmbtBlock) (b : Nat) : Nat :=
  match blockAt store b with
  | .leaf recs => (recs.headD default).startoff
  | .node keys _ => keys.headD 0

/-- Where block `x` of level `bs` starts among the level's entries. -/
def levelStart (store : List BmbtBlock) (bs : List Nat) (x : Nat) : Nat :=
  prefixSum (fun b => (blockAt store b).numrecs) bs x

/-- The leaves `bs` hold `recs`, in order, none of them empty. -/
def LeafLevel (store : List BmbtBlock) (bs : List Nat) (recs : List XfsBmbtIrec) : Prop :=
  (∀ b ∈ bs, b < store.length ∧ ∃ rs, rs ≠ [] ∧ blockAt store b = .leaf rs) ∧
    (bs.map fun b => (blockAt store b).leafRecs).flatten = recs

/-- The blocks `up` are nodes pointing, in order, at the blocks `bs`, each key the
first start offset under its child. -/
def NodeLevel (store : List BmbtBlock) (bs up : List Nat) : Prop :=
  (∀ b ∈ up, b < store.length ∧ ∃ ptrs, ptrs ≠ [] ∧ blockAt store b = .node (ptrs.map (firstKey store)) ptrs) ∧
    (up.map fun b => (blockAt store b).nodePtrs).flatten = bs

/-- The tree in `store`, its levels `lv` listed from the leaves up, holds `recs`: the
shape `build_bmbt_tree` leaves, with one block at the top. -/
structure TreeShape (store : List BmbtBlock) (lv : List (List Nat)) (recs : List XfsBmbtIrec) : Prop where
  leaves : LeafLevel store (lv.getD 0 []) recs
  nodes : ∀ h, h + 1 < lv.length → NodeLevel store (lv.getD h []) (lv.getD (h + 1) [])
  top : ∃ root, lv.getLast? = some [root]

/-- `cur` holds, level by level from the first level of `lv` up, the path to entry `g`
of that level: at each level the block the level above points at and a position in it. -/
def CursorAt (store : List BmbtBlock) : List (List Nat) → List XfsBtreeLevel → Nat → Prop
  | [], [], g => g = 0
  | bs :: ups, at0 :: cur, g => ∃ x, CursorAt store ups cur x ∧ x < bs.length ∧
      at0.bp = blockAt store (bs.getD x 0) ∧ 1 ≤ at0.ptr ∧ at0.ptr ≤ at0.bp.numrecs ∧
      g = levelStart store bs x + (at0.ptr - 1)
  | _, _, _ => False

section Shape

variable {store : List BmbtBlock} {lv : List (List Nat)} {bs up : List Nat} {recs : List XfsBmbtIrec}

theorem readBlock_of_lt {b : Nat} (hb : b < store.length) : readBlock store b = .ok (blockAt store b) := by
  simp [readBlock, blockAt, List.getElem?_eq_getElem hb]

theorem LeafLevel.numrecs_eq (hl : LeafLevel store bs recs) {b : Nat} (hb : b ∈ bs) :
    (blockAt store b).numrecs = (blockAt store b).leafRecs.length := by
  obtain ⟨-, rs, -, heq⟩ := hl.1 b hb
  rw [heq]
  rfl

theorem NodeLevel.numrecs_eq (hn : NodeLevel store bs up) {b : Nat} (hb : b ∈ up) :
    (blockAt store b).numrecs = (blockAt store b).nodePtrs.length := by
  obtain ⟨-, ptrs, -, heq⟩ := hn.1 b hb
  rw [heq]
  simp [BmbtBlock.numrecs, BmbtBlock.nodePtrs]

theorem LeafLevel.numrecs_pos (hl : LeafLevel store bs recs) {b : Nat} (hb : b ∈ bs) :
    0 < (blockAt store b).numrecs := by
  obtain ⟨-, rs, hne, heq⟩ := hl.1 b hb
  rw [heq]
  exact List.length_pos_of_ne_nil hne

theorem NodeLevel.numrecs_pos (hn : NodeLevel store bs up) {b : Nat} (hb : b ∈ up) :
    0 < (blockAt store b).numrecs := by
  obtain ⟨-, ptrs, hne, heq⟩ := hn.1 b hb
  rw [heq]
  simpa [BmbtBlock.numrecs] using List.length_pos_of_ne_nil hne

/-- A level's positions are its chunks' positions in the level below. -/
theorem NodeLevel.levelStart_eq (hn : NodeLevel store bs up) (x : Nat) :
    levelStart store up x = chunkStart (up.map fun b => (blockAt store b).nodePtrs) x := by
  rw [chunkStart, prefixSum_map]
  exact prefixSum_congr fun b hb => hn.numrecs_eq hb

theorem LeafLevel.levelStart_eq (hl : LeafLevel store bs recs) (x : Nat) :
    levelStart store bs x = chunkStart (bs.map fun b => (blockAt store b).leafRecs) x := by
  rw [chunkStart, prefixSum_map]
  exact prefixSum_congr fun b hb => hl.numrecs_eq hb

/-- The level above has one entry per block below. -/
theorem NodeLevel.levelStart_length (hn : NodeLevel store bs up) : levelStart store up up.length = bs.length := by
  have h := @chunkStart_length _ (up.map fun b => (blockAt store b).nodePtrs)
  rw [List.length_map, hn.2] at h
  rw [hn.levelStart_eq, h]

theorem LeafLevel.levelStart_length (hl : LeafLevel store bs recs) : levelStart store bs bs.length = recs.length := by
  have h := @chunkStart_length _ (bs.map fun b => (blockAt store b).leafRecs)
  rw [List.length_map, hl.2] at h
  rw [hl.levelStart_eq, h]

theorem getD_mem {l : List Nat} {x : Nat} (hx : x < l.length) : l.getD x 0 ∈ l := by
  rw [List.getD_eq_getElem _ _ hx]
  exact List.getElem_mem hx

theorem levelStart_succ {x : Nat} (hx : x < bs.length) :
    levelStart store bs (x + 1) = levelStart store bs x + (blockAt store (bs.getD x 0)).numrecs := by
  rw [levelStart, prefixSum_succ hx, List.getD_eq_getElem _ _ hx]
  rfl

/-- Every block of every level can be read and holds an entry. -/
theorem TreeShape.block {h b : Nat} (hs : TreeShape store lv recs) (hh : h < lv.length) (hb : b ∈ lv.getD h []) :
    b < store.length ∧ 0 < (blockAt store b).numrecs := by
  cases h with
  | zero => exact ⟨(hs.leaves.1 b hb).1, hs.leaves.numrecs_pos hb⟩
  | succ h =>
    have hn := hs.nodes h hh
    exact ⟨(hn.1 b hb).1, hn.numrecs_pos hb⟩

theorem TreeShape.top_length (hs : TreeShape store lv recs) : (lv.getD (lv.length - 1) []).length = 1 := by
  obtain ⟨root, h⟩ := hs.top
  rw [List.getLast?_eq_getElem?] at h
  rw [List.getD_eq_getElem?_getD, h]
  rfl

theorem drop_eq_getD_cons {h : Nat} (hh : h < lv.length) : lv.drop h = lv.getD h [] :: lv.drop (h + 1) := by
  rw [List.drop_eq_getElem_cons hh, List.getD_eq_getElem _ _ hh]

theorem cursorAt_cons {at0 : XfsBtreeLevel} {cur : List XfsBtreeLevel} {ups : List (List Nat)} {g : Nat} :
    CursorAt store (bs :: ups) (at0 :: cur) g ↔ ∃ x, CursorAt store ups cur x ∧ x < bs.length ∧
      at0.bp = blockAt store (bs.getD x 0) ∧ 1 ≤ at0.ptr ∧ at0.ptr ≤ at0.bp.numrecs ∧
      g = levelStart store bs x + (at0.ptr - 1) := Iff.rfl

theorem cursorAt_nil_levels {cur : List XfsBtreeLevel} {g : Nat} (hc : CursorAt store [] cur g) : cur = [] ∧ g = 0 := by
  cases cur with
  | nil => exact ⟨rfl, hc⟩
  | cons _ _ => exact absurd hc id

/-- The position a cursor holds in a node is the child it points at. -/
theorem CursorAt.ptrAt_eq {ups : List (List Nat)} {at0 : XfsBtreeLevel} {cur : List XfsBtreeLevel} {y : Nat}
    (hn : NodeLevel store bs up) (hc : CursorAt store (up :: ups) (at0 :: cur) y) :
    y < bs.length ∧ at0.bp.ptrAt at0.ptr = bs.getD y 0 := by
  obtain ⟨x, -, hx, hbp, hp1, hp2, rfl⟩ := cursorAt_cons.mp hc
  obtain ⟨-, ptrs, -, hblk⟩ := hn.1 _ (getD_mem hx)
  have hchunk : (up.map fun b => (blockAt store b).nodePtrs).getD x [] = ptrs := by
    rw [List.getD_eq_getElem _ _ (by simpa using hx), List.getElem_map, ← List.getD_eq_getElem _ 0 hx, hblk]
    rfl
  rw [hbp, hblk] at hp2
  simp only [BmbtBlock.numrecs, List.length_map] at hp2
  have hget := @getElem?_flatten_chunkStart _ (up.map fun b => (blockAt store b).nodePtrs) x (at0.ptr - 1)
    (by rw [hchunk]; omega)
  rw [hn.2, hchunk, ← hn.levelStart_eq] at hget
  have hlt : levelStart store up x + (at0.ptr - 1) < bs.length := by
    by_contra hge
    rw [List.getElem?_eq_none (by omega)] at hget
    exact absurd hget.symm (by simp [List.getElem?_eq_getElem (show at0.ptr - 1 < ptrs.length by omega)])
  refine ⟨hlt, ?_⟩
  rw [hbp, hblk, BmbtBlock.ptrAt, BmbtBlock.nodePtrs, List.getD_eq_getElem?_getD, List.getD_eq_getElem?_getD, hget,
    List.getElem?_eq_getElem (show at0.ptr - 1 < ptrs.length by omega)]
  rfl

/-- A cursor on the leaf level reads the record at its position. -/
theorem CursorAt.getRec_eq {ups : List (List Nat)} {cur : List XfsBtreeLevel} {g : Nat}
    (hl : LeafLevel store bs recs) (hc : CursorAt store (bs :: ups) cur g) :
    g < recs.length ∧ xfsBtreeGetRec cur = recs.getD g default := by
  cases cur with
  | nil => exact absurd hc id
  | cons at0 cur =>
  obtain ⟨x, -, hx, hbp, hp1, hp2, rfl⟩ := cursorAt_cons.mp hc
  obtain ⟨-, rs, -, hblk⟩ := hl.1 _ (getD_mem hx)
  have hchunk : (bs.map fun b => (blockAt store b).leafRecs).getD x [] = rs := by
    rw [List.getD_eq_getElem _ _ (by simpa using hx), List.getElem_map, ← List.getD_eq_getElem _ 0 hx, hblk]
    rfl
  rw [hbp, hblk] at hp2
  simp only [BmbtBlock.numrecs] at hp2
  have hget := @getElem?_flatten_chunkStart _ (bs.map fun b => (blockAt store b).leafRecs) x (at0.ptr - 1)
    (by rw [hchunk]; omega)
  rw [hl.2, hchunk, ← hl.levelStart_eq] at hget
  have hsome : rs[at0.ptr - 1]? = some rs[at0.ptr - 1] := List.getElem?_eq_getElem (by omega)
  have hlt : levelStart store bs x + (at0.ptr - 1) < recs.length := by
    by_contra hge
    rw [List.getElem?_eq_none (by omega), hsome] at hget
    cases hget
  refine ⟨hlt, ?_⟩
  show at0.bp.recAt at0.ptr = _
  rw [hbp, hblk]
  simp only [BmbtBlock.recAt, BmbtBlock.leafRecs, Wos.XfsBtree.recAt, List.getD_eq_getElem?_getD, hget]

theorem xfsBtreeIncrement_advance {blk : BmbtBlock} {p : Nat} {upper : List XfsBtreeLevel}
    (h : p + 1 ≤ blk.numrecs) : xfsBtreeIncrement store (⟨blk, p⟩ :: upper) = .ok (⟨blk, p + 1⟩ :: upper) := by
  simp [xfsBtreeIncrement, h]

theorem xfsBtreeIncrement_climb {blk : BmbtBlock} {p : Nat} {upper : List XfsBtreeLevel}
    (h : ¬p + 1 ≤ blk.numrecs) : xfsBtreeIncrement store (⟨blk, p⟩ :: upper) =
      (xfsBtreeIncrement store upper).bind fun upper' =>
        match upper' with
        | [] => .error .enoent
        | parent :: _ => (readBlock store (parent.bp.ptrAt parent.ptr)).bind fun child => .ok (⟨child, 1⟩ :: upper') := by
  simp only [xfsBtreeIncrement, h, if_false]
  rfl

/-- `xfs_btree_increment` moves a cursor at entry `g` of level `h` to entry `g + 1`,
and fails with `-ENOENT` from the last entry: by induction on the cursor, the leaf
level first, since a level that cannot advance asks the levels above it. -/
theorem xfsBtreeIncrement_next (hs : TreeShape store lv recs) : ∀ (cur : List XfsBtreeLevel) (h g : Nat),
    h < lv.length → CursorAt store (lv.drop h) cur g →
    (g + 1 < levelStart store (lv.getD h []) (lv.getD h []).length →
      ∃ cur', xfsBtreeIncrement store cur = .ok cur' ∧ CursorAt store (lv.drop h) cur' (g + 1)) ∧
    (g + 1 = levelStart store (lv.getD h []) (lv.getD h []).length → xfsBtreeIncrement store cur = .error .enoent)
  | [], h, g, hh, hc => by rw [drop_eq_getD_cons hh] at hc; exact absurd hc id
  | ⟨blk, p⟩ :: cur, h, g, hh, hc => by
    rw [drop_eq_getD_cons hh] at hc ⊢
    obtain ⟨x, hcur, hx, hbp, hp1, hp2, hg⟩ := cursorAt_cons.mp hc
    dsimp only at hbp hp1 hp2 hg
    have hpos : ∀ b ∈ lv.getD h [], 0 < (blockAt store b).numrecs := fun b hb => (hs.block hh hb).2
    have hsucc : levelStart store (lv.getD h []) (x + 1) =
        levelStart store (lv.getD h []) x + (blockAt store ((lv.getD h []).getD x 0)).numrecs := levelStart_succ hx
    have hbound : ∀ y, y < (lv.getD h []).length →
        levelStart store (lv.getD h []) y < levelStart store (lv.getD h []) (lv.getD h []).length :=
      fun y hy => prefixSum_lt hpos hy le_rfl
    by_cases hadv : p + 1 ≤ blk.numrecs
    · rw [xfsBtreeIncrement_advance hadv]
      refine ⟨fun _ => ⟨_, rfl, cursorAt_cons.mpr ⟨x, hcur, hx, hbp, by dsimp only; omega, hadv, by dsimp only; omega⟩⟩,
        fun hend => absurd hend ?_⟩
      have hmono : levelStart store (lv.getD h []) (x + 1) ≤ levelStart store (lv.getD h []) (lv.getD h []).length :=
        prefixSum_mono (by omega)
      rw [← hbp] at hsucc
      omega
    · rw [xfsBtreeIncrement_climb hadv]
      have hlastpos : g + 1 = levelStart store (lv.getD h []) (x + 1) := by rw [hsucc, ← hbp]; omega
      by_cases htop : h + 1 < lv.length
      · have hn := hs.nodes h htop
        have ih := xfsBtreeIncrement_next hs cur (h + 1) x htop hcur
        rw [hn.levelStart_length] at ih
        by_cases hlast : x + 1 < (lv.getD h []).length
        · obtain ⟨cur', hinc, hcur'⟩ := ih.1 hlast
          rw [hinc]
          rw [drop_eq_getD_cons htop] at hcur'
          cases cur' with
          | nil => exact absurd hcur' id
          | cons parent rest =>
            obtain ⟨-, hptr⟩ := hcur'.ptrAt_eq hn
            have hread : readBlock store ((lv.getD h []).getD (x + 1) 0) =
                .ok (blockAt store ((lv.getD h []).getD (x + 1) 0)) := readBlock_of_lt (hs.block hh (getD_mem hlast)).1
            simp only [Except.bind, hptr, hread]
            refine ⟨fun _ => ⟨_, rfl, ?_⟩, fun hend => absurd hend (by have := hbound (x + 1) hlast; omega)⟩
            rw [← drop_eq_getD_cons htop] at hcur'
            exact cursorAt_cons.mpr ⟨x + 1, hcur', hlast, rfl, le_rfl, (hs.block hh (getD_mem hlast)).2, by
              dsimp only; omega⟩
        · have hx1 : x + 1 = (lv.getD h []).length := by omega
          rw [ih.2 hx1]
          exact ⟨fun hlt => absurd hlt (by rw [hlastpos, hx1]; omega), fun _ => rfl⟩
      · have hdrop : lv.drop (h + 1) = [] := List.drop_eq_nil_of_le (by omega)
        rw [hdrop] at hcur
        obtain ⟨rfl, rfl⟩ := cursorAt_nil_levels hcur
        have hone : (lv.getD h []).length = 1 := by
          have := hs.top_length
          rwa [show lv.length - 1 = h by omega] at this
        rw [Nat.zero_add] at hlastpos
        rw [hone]
        exact ⟨fun hlt => absurd hlt (by omega), fun _ => rfl⟩

end Shape

end Wos.XfsBmap
