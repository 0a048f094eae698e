import Mathlib
import WosKernel.XfsBtree

/-! # XFS allocation-group free space

`xfs_alloc.cpp` keeps the free extents of an allocation group in two B+trees, the
by-block `bnobt` and the by-size `cntbt`, and the AG free list (AGFL) of blocks kept
back for tree splits.  This module models one AG: both trees (one leaf deep, as in
`WosKernel.XfsBtree`), the AGF counters, and the AGFL as a queue; over them
`agfl_refill`, `xfs_alloc_ensure_freelist_headroom`, `xfs_free_extent`,
`xfs_validate_allocated_extent`, `alloc_ag_by_hint`, `alloc_ag_by_size` and, over a
mount of several AGs, `xfs_alloc_extent`.  The AG-level functions run in
`ExceptT Errno (StateM PerAg)`, so that what a function changed before it fails stays
changed, as on the buffers.

The double-free check of `xfs_validate_allocated_extent` (and the same lookups in
`xfs_free_extent`) looks at the free record at or before `agbno` and the one at or
after `agbno + len`.  The second can never start inside the range, so on a
well-formed tree the check accepts exactly the ranges whose first block is not free
(`xfsValidateAllocatedExtent_ok_iff`): a range holding a free extent past its first
block is freed again, and both trees then index overlapping extents.

Not modelled: the AGF/AGFL sector geometry checks, the CRCs and logging, the slot
validation of `xfs_alloc_get_freelist` (it pops the head of the queue here).
-/

namespace Wos.XfsAlloc

open Wos.XfsBtree

/-- `XFS_AG_RESERVED_MAX`: the AG headers end here; free space lies above. -/
def xfsAgReservedMax : UInt32 := 4

/-- `NULLAGBLOCK`. -/
def nullAgBlock : UInt32 := 0xFFFFFFFF

/-- `NULLAGNUMBER`. -/
def nullAgNumber : UInt32 := 0xFFFFFFFF

def xfsAgflMin : Nat := 64

def xfsAgflMutationHeadroom : Nat := 16

def xfsAgflDrainBatch : Nat := 32

/-- The mount geometry these paths read: `ag_blocks` and `xfs_agfl_size`. -/
structure Geometry where
  agBlocks : UInt32
  agflSize : Nat
deriving DecidableEq, Repr

/-- `XfsPerAG`: the records of both free-space trees, the AGF counters, and the AGFL
from `agf_flfirst` to `agf_fllast`. -/
structure PerAg where
  bno : List AllocRec
  cnt : List AllocRec
  freeblks : UInt32
  longest : UInt32
  agfl : List UInt32
deriving DecidableEq, Repr, Inhabited

/-- `agf_flcount`. -/
def PerAg.flcount (pag : PerAg) : Nat := pag.agfl.length

abbrev AgM := ExceptT Errno (StateM PerAg)

/-- Run an AG-level path on an AG: its result and the AG it leaves. -/
def AgM.exec {β : Type} (m : AgM β) (pag : PerAg) : Except Errno β × PerAg := m.run.run pag

def liftE {β : Type} : Except Errno β → AgM β
  | .ok b => pure b
  | .error e => throw e

/-! ## Small helpers -/

/-- `agfl_reserve_blocks`. -/
def agflReserveBlocks (g : Geometry) : Nat :=
  if g.agflSize ≤ xfsAgflMutationHeadroom then g.agflSize / 2
  else min xfsAgflMin (g.agflSize - xfsAgflMutationHeadroom)

/-- `agfl_bno_usable`. -/
def agflBnoUsable (g : Geometry) (bno : UInt32) : Bool :=
  bno != nullAgBlock && bno < g.agBlocks && bno > xfsAgReservedMax

/-- `same_free_extent`. -/
def sameFreeExtent (lhsStart lhsLen rhsStart rhsLen : UInt32) : Bool :=
  lhsStart == rhsStart && lhsLen == rhsLen

/-- `delete_btree_record` on the by-block tree, at a cursor. -/
def deleteBnoAt (ptr : Nat) : AgM Unit := do
  let pag ← get
  let bno ← liftE (xfsBtreeDelete pag.bno ptr)
  set { pag with bno := bno }

/-- `delete_btree_record` on the by-size tree, at a cursor. -/
def deleteCntAt (ptr : Nat) : AgM Unit := do
  let pag ← get
  let cnt ← liftE (xfsBtreeDelete pag.cnt ptr)
  set { pag with cnt := cnt }

/-- `xfs_btree_insert` into the by-block tree. -/
def insertBno (r : AllocRec) : AgM Unit := do
  let pag ← get
  let bno ← liftE (xfsBtreeInsert XfsBnobtTraits pag.bno r)
  set { pag with bno := bno }

/-- `xfs_btree_insert` into the by-size tree. -/
def insertCnt (r : AllocRec) : AgM Unit := do
  let pag ← get
  let cnt ← liftE (xfsBtreeInsert XfsCntbtTraits pag.cnt r)
  set { pag with cnt := cnt }

/-- `refresh_agf_longest`, the part of `log_agf_free_space_roots` that can fail:
the last by-size record is the longest extent. -/
def logAgfFreeSpaceRoots : AgM Unit := do
  let pag ← get
  match xfsBtreeLookup XfsCntbtTraits pag.cnt ⟨0xFFFFFFFF, 0xFFFFFFFF⟩ .le with
  | .error .enoent => set { pag with longest := 0 }
  | .error e => throw e
  | .ok ptr =>
    let r := xfsBtreeGetRec pag.cnt ptr
    if r.blockcount > pag.freeblks then throw .eio
    set { pag with longest := r.blockcount }

/-- `delete_free_extent_record`: both trees must hold the extent. -/
def deleteFreeExtentRecord (startblock blockcount : UInt32) : AgM Unit := do
  let pag ← get
  let bnoPtr ← liftE (xfsBtreeLookup XfsBnobtTraits pag.bno ⟨startblock, 0⟩ .eq)
  let bnoRec := xfsBtreeGetRec pag.bno bnoPtr
  if bnoRec.blockcount ≠ blockcount then throw .eio
  let cntPtr ← liftE (xfsBtreeLookup XfsCntbtTraits pag.cnt ⟨startblock, blockcount⟩ .eq)
  let cntRec := xfsBtreeGetRec pag.cnt cntPtr
  if !sameFreeExtent cntRec.startblock cntRec.blockcount bnoRec.startblock bnoRec.blockcount then throw .eio
  deleteBnoAt bnoPtr
  deleteCntAt cntPtr

/-! ## The AG free list -/

/-- `xfs_alloc_put_freelist`: append at `agf_fllast`. -/
def xfsAllocPutFreelist (g : Geometry) (bno : UInt32) : AgM Unit := do
  if !agflBnoUsable g bno then throw .eio
  if g.agflSize = 0 then throw .eio
  let pag ← get
  if pag.flcount ≥ g.agflSize then throw .enospc
  set { pag with agfl := pag.agfl ++ [bno] }

/-- `xfs_alloc_get_freelist`: take the block at `agf_flfirst`. -/
def xfsAllocGetFreelist : AgM UInt32 := do
  let pag ← get
  match pag.agfl with
  | [] => throw .enospc
  | b :: rest =>
    set { pag with agfl := rest }
    pure b

/-- One pass of `agfl_refill` per remaining reserve slot: steal the last block of the
smallest free extent for the AGFL.  Each completed pass adds one block to the AGFL, so
`agfl_reserve_blocks` passes reach the loop's exit. -/
def agflRefillLoop (g : Geometry) : Nat → AgM Unit
  | 0 => pure ()
  | fuel + 1 => do
    let pag ← get
    if pag.flcount < agflReserveBlocks g ∧ pag.freeblks > 0 then
      match xfsBtreeLookup XfsCntbtTraits pag.cnt ⟨0, 1⟩ .ge with
      | .error .enoent => pure ()
      | .error e => throw e
      | .ok cntPtr =>
        let found := xfsBtreeGetRec pag.cnt cntPtr
        if found.blockcount = 0 then pure ()
        else
          let bnoPtr ← liftE (xfsBtreeLookup XfsBnobtTraits pag.bno found .eq)
          let bnoFound := xfsBtreeGetRec pag.bno bnoPtr
          if !sameFreeExtent bnoFound.startblock bnoFound.blockcount found.startblock found.blockcount then
            throw .eio
          deleteCntAt cntPtr
          deleteBnoAt bnoPtr
          let stolen := found.startblock + found.blockcount - 1
          if found.blockcount > 1 then
            insertBno ⟨found.startblock, found.blockcount - 1⟩
            insertCnt ⟨found.startblock, found.blockcount - 1⟩
          if !agflBnoUsable g stolen then throw .eio
          modify fun pag => { pag with freeblks := pag.freeblks - 1 }
          xfsAllocPutFreelist g stolen
          logAgfFreeSpaceRoots
          agflRefillLoop g fuel
    else pure ()

/-- `agfl_refill`. -/
def agflRefill (g : Geometry) : AgM Unit := agflRefillLoop g (agflReserveBlocks g)

/-! ## Freeing -/

/-- The LE lookup of the free paths: the by-block record at or before `agbno` must
end by it (`-EIO` otherwise), and is merged when it ends exactly there. -/
def prevNeighbour (bno : List AllocRec) (agbno : UInt32) : Except Errno (Option AllocRec) :=
  match xfsBtreeLookup XfsBnobtTraits bno ⟨agbno, 0⟩ .le with
  | .ok ptr =>
    let r := xfsBtreeGetRec bno ptr
    if r.startblock + r.blockcount > agbno then .error .eio
    else .ok (if r.startblock + r.blockcount = agbno then some r else none)
  | .error .enoent => .ok none
  | .error e => .error e

/-- The GE lookup of the free paths: the by-block record at or after `freeEnd` must
start there or later (`-EIO` otherwise), and is merged when it starts exactly there. -/
def nextNeighbour (bno : List AllocRec) (freeEnd : UInt32) : Except Errno (Option AllocRec) :=
  match xfsBtreeLookup XfsBnobtTraits bno ⟨freeEnd, 0⟩ .ge with
  | .ok ptr =>
    let r := xfsBtreeGetRec bno ptr
    if r.startblock < freeEnd then .error .eio
    else .ok (if r.startblock = freeEnd then some r else none)
  | .error .enoent => .ok none
  | .error e => .error e

/-- The two lookups `xfs_validate_allocated_extent` and `xfs_free_extent` both make. -/
def freeNeighbours (bno : List AllocRec) (agbno len : UInt32) : Except Errno (Option AllocRec × Option AllocRec) := do
  let prev ← prevNeighbour bno agbno
  let next ← nextNeighbour bno (agbno + len)
  pure (prev, next)

/-- The range checks shared by the free path and its validation. -/
def extentInRange (g : Geometry) (agbno len : UInt32) : Prop :=
  ¬(agbno = nullAgBlock ∨ agbno ≥ g.agBlocks ∨ len > g.agBlocks - agbno ∨ agbno ≤ xfsAgReservedMax)

instance (g : Geometry) (agbno len : UInt32) : Decidable (extentInRange g agbno len) :=
  inferInstanceAs (Decidable (¬_))

/-- `xfs_validate_allocated_extent` within an AG. -/
def xfsValidateAllocatedExtent (g : Geometry) (bno : List AllocRec) (agbno len : UInt32) : Except Errno Unit := do
  if len = 0 then throw .einval
  if ¬extentInRange g agbno len then throw .eio
  let _ ← freeNeighbours bno agbno len
  pure ()

/-- `xfs_free_extent` within an AG. -/
def xfsFreeExtent (g : Geometry) (agbno len : UInt32) : AgM Unit := do
  if len = 0 then throw .einval
  if ¬extentInRange g agbno len then throw .eio
  let pag ← get
  liftE (xfsValidateAllocatedExtent g pag.bno agbno len)
  if pag.flcount < agflReserveBlocks g then agflRefill g
  let pag ← get
  let (prev, next) ← liftE (freeNeighbours pag.bno agbno len)
  let mergedStart := match prev with
    | some r => r.startblock
    | none => agbno
  let mergedLen := len + (match prev with | some r => r.blockcount | none => 0) +
    (match next with | some r => r.blockcount | none => 0)
  if let some r := prev then deleteFreeExtentRecord r.startblock r.blockcount
  if let some r := next then deleteFreeExtentRecord r.startblock r.blockcount
  insertBno ⟨mergedStart, mergedLen⟩
  insertCnt ⟨mergedStart, mergedLen⟩
  modify fun pag => { pag with freeblks := pag.freeblks + len }
  logAgfFreeSpaceRoots

/-! ## Draining the AGFL -/

/-- `xfs_alloc_get_freelist`, `n` times. -/
def getFreelistN : Nat → AgM (List UInt32)
  | 0 => pure []
  | n + 1 => do
    let b ← xfsAllocGetFreelist
    let bs ← getFreelistN n
    pure (b :: bs)

/-- `HIGH_WATER` of `xfs_alloc_ensure_freelist_headroom`. -/
def headroomHighWater (g : Geometry) : Nat :=
  max (agflReserveBlocks g) (g.agflSize - min g.agflSize xfsAgflMutationHeadroom)

/-- The drain loop: pop a batch above the reserve and free each block.  A batch keeps
the AGFL at or above the reserve, so freeing never refills it and every pass shrinks
it; `flcount` passes are enough. -/
def headroomLoop (g : Geometry) : Nat → Nat → AgM Unit
  | 0, _ => pure ()
  | fuel + 1, attempts => do
    let pag ← get
    if pag.flcount > headroomHighWater g then
      let before := pag.flcount
      let count := min xfsAgflDrainBatch
        (if pag.flcount > agflReserveBlocks g then pag.flcount - agflReserveBlocks g else 0)
      if count = 0 then throw .enospc
      let drained ← getFreelistN count
      drained.forM fun b => xfsFreeExtent g b 1
      let pag ← get
      if pag.flcount ≥ before ∧ attempts + 1 ≥ g.agflSize then throw .enospc
      headroomLoop g fuel (attempts + 1)
    else pure ()

/-- `xfs_alloc_ensure_freelist_headroom`. -/
def xfsAllocEnsureFreelistHeadroom (g : Geometry) : AgM Unit := do
  if g.agflSize = 0 then throw .eio
  let pag ← get
  if pag.flcount ≤ headroomHighWater g then pure ()
  else headroomLoop g pag.flcount 0

/-! ## Allocating -/

/-- `XfsAllocReq`. -/
structure XfsAllocReq where
  agno : UInt32
  agbno : UInt32
  minlen : UInt32
  maxlen : UInt32
  alignment : UInt32
deriving DecidableEq, Repr

/-- `XfsAllocResult`. -/
structure XfsAllocResult where
  agno : UInt32
  agbno : UInt32
  len : UInt32
deriving DecidableEq, Repr

/-- Where `alloc_ag_by_size` cuts its extent from a by-size record, if it can: at the
start, or at the first aligned block when `alignment > 1`. -/
def sizeCandidate (req : XfsAllocReq) (found : AllocRec) : Option (UInt32 × UInt32) :=
  if found.blockcount ≥ req.minlen then
    let candidateLen := min found.blockcount req.maxlen
    if req.alignment > 1 then
      let aligned := (found.startblock + req.alignment - 1) / req.alignment * req.alignment
      let lost := aligned - found.startblock
      if lost < found.blockcount ∧ found.blockcount - lost ≥ req.minlen then
        some (aligned, min candidateLen (found.blockcount - lost))
      else none
    else some (found.startblock, candidateLen)
  else none

/-- The scan of `alloc_ag_by_size` from cursor `ptr` of the by-size tree, one record
per pass: the cursor, the record and the extent cut from it. -/
def sizeScan (cnt : List AllocRec) (req : XfsAllocReq) :
    Nat → Nat → Except Errno (Option (Nat × AllocRec × UInt32 × UInt32))
  | 0, _ => .ok none
  | fuel + 1, ptr =>
    let found := xfsBtreeGetRec cnt ptr
    match sizeCandidate req found with
    | some (start, len) => .ok (some (ptr, found, start, len))
    | none =>
      match xfsBtreeIncrement cnt ptr with
      | .ok ptr' => sizeScan cnt req fuel ptr'
      | .error .enoent => .ok none
      | .error e => .error e

/-- Put back what is left of `found` on each side of `[allocStart, allocStart + allocLen)`. -/
def insertRemainders (found : AllocRec) (allocStart allocLen : UInt32) : AgM Unit := do
  if allocStart > found.startblock then
    insertBno ⟨found.startblock, allocStart - found.startblock⟩
    insertCnt ⟨found.startblock, allocStart - found.startblock⟩
  let allocEnd := allocStart + allocLen
  let origEnd := found.startblock + found.blockcount
  if allocEnd < origEnd then
    insertBno ⟨allocEnd, origEnd - allocEnd⟩
    insertCnt ⟨allocEnd, origEnd - allocEnd⟩

/-- The AGFL checks both allocation paths open with. -/
def prepareFreelist (g : Geometry) : AgM Unit := do
  xfsAllocEnsureFreelistHeadroom g
  let pag ← get
  if pag.flcount < agflReserveBlocks g then agflRefill g

/-- The extent `alloc_ag_by_hint` cuts from the by-block record at or before the
hint: its length, if the record holds the hint and leaves at least `minlen` from it. -/
def hintCut (req : XfsAllocReq) (found : AllocRec) : Option UInt32 :=
  let foundEnd := found.startblock + found.blockcount
  if req.agbno < found.startblock ∨ req.agbno ≥ foundEnd then none
  else
    let allocLen := min req.maxlen (foundEnd - req.agbno)
    if allocLen < req.minlen then none else some allocLen

/-- `alloc_ag_by_hint`: the free extent holding `req.agbno`, cut from there. -/
def allocAgByHint (g : Geometry) (req : XfsAllocReq) : AgM (UInt32 × UInt32) := do
  if req.agbno = nullAgBlock ∨ req.agbno ≤ xfsAgReservedMax then throw .enospc
  let pag ← get
  if pag.freeblks < req.minlen then throw .enospc
  prepareFreelist g
  let pag ← get
  let bnoPtr ← match xfsBtreeLookup XfsBnobtTraits pag.bno ⟨req.agbno, 0⟩ .le with
    | .ok p => pure p
    | .error .enoent => throw .enospc
    | .error e => throw e
  let found := xfsBtreeGetRec pag.bno bnoPtr
  let allocLen ← match hintCut req found with
    | some l => pure l
    | none => throw .enospc
  let cntPtr ← liftE (xfsBtreeLookup XfsCntbtTraits pag.cnt found .eq)
  let cntFound := xfsBtreeGetRec pag.cnt cntPtr
  if !sameFreeExtent cntFound.startblock cntFound.blockcount found.startblock found.blockcount then throw .eio
  deleteBnoAt bnoPtr
  deleteCntAt cntPtr
  insertRemainders found req.agbno allocLen
  modify fun pag => { pag with freeblks := pag.freeblks - allocLen }
  logAgfFreeSpaceRoots
  pure (req.agbno, allocLen)

/-- `alloc_ag_by_size`: the first by-size record from `minlen` up that yields an
extent. -/
def allocAgBySize (g : Geometry) (req : XfsAllocReq) : AgM (UInt32 × UInt32) := do
  let pag ← get
  if pag.freeblks < req.minlen then throw .enospc
  prepareFreelist g
  let pag ← get
  let ptr ← match xfsBtreeLookup XfsCntbtTraits pag.cnt ⟨0, req.minlen⟩ .ge with
    | .ok p => pure p
    | .error .enoent => throw .enospc
    | .error e => throw e
  let sel ← liftE (sizeScan pag.cnt req pag.cnt.length ptr)
  let (cntPtr, found, allocStart, allocLen) ← match sel with
    | some s => pure s
    | none => throw .enospc
  -- both trees must hold the record before either changes
  let bnoPtr ← match xfsBtreeLookup XfsBnobtTraits pag.bno found .eq with
    | .ok p => pure p
    | .error _ => throw .eio
  let bnoFound := xfsBtreeGetRec pag.bno bnoPtr
  if !sameFreeExtent bnoFound.startblock bnoFound.blockcount found.startblock found.blockcount then throw .eio
  deleteCntAt cntPtr
  deleteBnoAt bnoPtr
  insertRemainders found allocStart allocLen
  modify fun pag => { pag with freeblks := pag.freeblks - allocLen }
  logAgfFreeSpaceRoots
  pure (allocStart, allocLen)

/-! ## The mount -/

/-- The AGs of a mount. -/
structure Mount where
  geo : Geometry
  perAg : List PerAg
deriving DecidableEq, Repr

/-- Run an AG-level path on AG `agno` of the mount. -/
def Mount.runAg {β : Type} (m : Mount) (agno : Nat) (f : AgM β) : Except Errno β × Mount :=
  let r := f.exec (m.perAg.getD agno default)
  (r.1, { m with perAg := m.perAg.set agno r.2 })

/-- `xfs_free_extent`. -/
def Mount.xfsFreeExtent (m : Mount) (agno agbno len : UInt32) : Except Errno Unit × Mount :=
  if agno.toNat ≥ m.perAg.length then (.error .einval, m)
  else m.runAg agno.toNat (XfsAlloc.xfsFreeExtent m.geo agbno len)

/-- One AG of the round robin of `xfs_alloc_extent`: `none` means go on. -/
def Mount.tryBySize (m : Mount) (req : XfsAllocReq) (ag : Nat) : Option (Except Errno XfsAllocResult) × Mount :=
  let r := m.runAg ag (allocAgBySize m.geo req)
  match r.1 with
  | .ok (agbno, len) => (some (.ok ⟨UInt32.ofNat ag, agbno, len⟩), r.2)
  | .error .enospc => (none, r.2)
  | .error e => (some (.error e), r.2)

/-- The round robin over AGs `ag, ag + 1, …`, skipping the preferred one. -/
def Mount.roundRobin (req : XfsAllocReq) : Nat → Nat → Mount → Except Errno XfsAllocResult × Mount
  | 0, _, m => (.error .enospc, m)
  | fuel + 1, ag, m =>
    if ag ≥ m.perAg.length then (.error .enospc, m)
    else if UInt32.ofNat ag = req.agno then Mount.roundRobin req fuel (ag + 1) m
    else
      match m.tryBySize req ag with
      | (some r, m') => (r, m')
      | (none, m') => Mount.roundRobin req fuel (ag + 1) m'

/-- `xfs_alloc_extent`: the hint, then by size, in the preferred AG, then by size
everywhere else. -/
def Mount.xfsAllocExtent (m : Mount) (req : XfsAllocReq) : Except Errno XfsAllocResult × Mount :=
  if req.minlen = 0 then (.error .einval, m)
  else
    let preferred : Option (Except Errno XfsAllocResult) × Mount :=
      if req.agno ≠ nullAgNumber ∧ req.agno.toNat < m.perAg.length then
        let hint : Except Errno (UInt32 × UInt32) × Mount :=
          if req.agbno ≠ 0 then m.runAg req.agno.toNat (allocAgByHint m.geo req) else (.error .enospc, m)
        match hint.1 with
        | .ok (agbno, len) => (some (.ok ⟨req.agno, agbno, len⟩), hint.2)
        | .error .enospc => hint.2.tryBySize req req.agno.toNat
        | .error e => (some (.error e), hint.2)
      else (none, m)
    match preferred with
    | (some r, m') => (r, m')
    | (none, m') => Mount.roundRobin req m'.perAg.length 0 m'

/-! ## The free-space invariant -/

/-- The blocks of two extents meet. -/
def extentsOverlap (a b : AllocRec) : Prop :=
  a.startblock.toNat < b.startblock.toNat + b.blockcount.toNat ∧
    b.startblock.toNat < a.startblock.toNat + a.blockcount.toNat

instance (a b : AllocRec) : Decidable (extentsOverlap a b) := inferInstanceAs (Decidable (_ ∧ _))

/-- In by-block order, each free extent ends before the next begins, with a gap. -/
def SeparatedExtents (bno : List AllocRec) : Prop :=
  bno.Pairwise fun a b => a.startblock.toNat + a.blockcount.toNat < b.startblock.toNat

instance (bno : List AllocRec) : Decidable (SeparatedExtents bno) := inferInstanceAs (Decidable (List.Pairwise _ _))

/-- The free-space invariant the allocator is meant to keep: the by-block tree holds
separated, non-empty extents above the AG headers and inside the AG, and the by-size
tree holds the same extents in its own order. -/
def FreeSpaceWF (g : Geometry) (pag : PerAg) : Prop :=
  SeparatedExtents pag.bno ∧
    (∀ r ∈ pag.bno, 0 < r.blockcount.toNat ∧ xfsAgReservedMax < r.startblock ∧
      r.startblock.toNat + r.blockcount.toNat ≤ g.agBlocks.toNat) ∧
    pag.cnt.Perm pag.bno ∧ Sorted XfsCntbtTraits pag.cnt

instance (g : Geometry) (pag : PerAg) : Decidable (FreeSpaceWF g pag) :=
  inferInstanceAs (Decidable (_ ∧ _ ∧ _ ∧ _))

theorem SeparatedExtents.sorted {bno : List AllocRec} (h : SeparatedExtents bno) : Sorted XfsBnobtTraits bno :=
  h.imp fun hab => by
    simp only [XfsBnobtTraits_key]
    omega

/-! ## Which ranges the double-free check lets through -/

section Validate

variable {bno : List AllocRec} {agbno len : UInt32}

/-- The end of an extent, when it does not wrap. -/
theorem extentEnd_toNat {r : AllocRec} (h : r.startblock.toNat + r.blockcount.toNat < 2 ^ 32) :
    (r.startblock + r.blockcount).toNat = r.startblock.toNat + r.blockcount.toNat := by
  rw [UInt32.toNat_add, Nat.mod_eq_of_lt h]

/-- The GE record starts at or after the target, so the check that it starts inside
the range never fires. -/
theorem nextNeighbour_isOk (hs : Sorted XfsBnobtTraits bno) (freeEnd : UInt32) :
    ∃ n, nextNeighbour bno freeEnd = .ok n := by
  unfold nextNeighbour
  rcases hge : xfsBtreeLookup XfsBnobtTraits bno ⟨freeEnd, 0⟩ .ge with e | q
  · obtain ⟨rfl, -⟩ := xfsBtreeLookup_ge_error hs hge
    exact ⟨none, rfl⟩
  · obtain ⟨-, -, hge', -⟩ := xfsBtreeLookup_ge_ok hs hge
    have hnot : ¬(xfsBtreeGetRec bno q).startblock < freeEnd := by
      rw [UInt32.lt_iff_toNat_lt, not_lt]
      simpa [xfsBtreeGetRec] using hge'
    exact ⟨_, if_neg hnot⟩

/-- On separated extents, the LE lookup at `agbno` fails exactly when some free extent
holds `agbno`: a later extent starts above it, an earlier one ends before the LE one
starts. -/
theorem prevNeighbour_isOk_iff (hsep : SeparatedExtents bno)
    (hfit : ∀ r ∈ bno, r.startblock.toNat + r.blockcount.toNat < 2 ^ 32) :
    (∃ n, prevNeighbour bno agbno = .ok n) ↔
      ¬∃ r ∈ bno, r.startblock.toNat ≤ agbno.toNat ∧ agbno.toNat < r.startblock.toNat + r.blockcount.toNat := by
  have hs := hsep.sorted
  unfold prevNeighbour
  rcases hle : xfsBtreeLookup XfsBnobtTraits bno ⟨agbno, 0⟩ .le with e | p
  · obtain ⟨rfl, hall⟩ := xfsBtreeLookup_le_error hs hle
    refine iff_of_true ⟨none, rfl⟩ ?_
    rintro ⟨r, hr, hrs, -⟩
    obtain ⟨i, hi1, hin, rfl⟩ := exists_recAt_of_mem hr
    exact absurd hrs (not_le.mpr (by simpa using hall i hi1 hin))
  · obtain ⟨hp1, hpn, hkey, habove⟩ := xfsBtreeLookup_le_ok hs hle
    simp only [XfsBnobtTraits_key] at hkey habove
    have hmem := recAt_mem hp1 hpn
    have hend : ((recAt bno p).startblock + (recAt bno p).blockcount).toNat =
        (recAt bno p).startblock.toNat + (recAt bno p).blockcount.toNat := extentEnd_toNat (hfit _ hmem)
    have hcover : agbno.toNat < (recAt bno p).startblock.toNat + (recAt bno p).blockcount.toNat ↔
        ∃ r ∈ bno, r.startblock.toNat ≤ agbno.toNat ∧ agbno.toNat < r.startblock.toNat + r.blockcount.toNat := by
      refine ⟨fun hlt => ⟨_, hmem, hkey, hlt⟩, ?_⟩
      rintro ⟨r, hr, hrs, hre⟩
      obtain ⟨i, hi1, hin, rfl⟩ := exists_recAt_of_mem hr
      rcases lt_trichotomy i p with hip | rfl | hpi
      · have hsepip := List.pairwise_iff_getElem.mp hsep (i - 1) (p - 1) (by omega) (by omega) (by omega)
        simp only [recAt, List.getD_eq_getElem _ _ (show i - 1 < bno.length by omega),
          List.getD_eq_getElem _ _ (show p - 1 < bno.length by omega)] at hre hkey hsepip ⊢
        omega
      · exact hre
      · exact absurd hrs (not_le.mpr (habove i hpi hin))
    by_cases hfire : (recAt bno p).startblock + (recAt bno p).blockcount > agbno
    · have hex := hcover.mp (by rwa [gt_iff_lt, UInt32.lt_iff_toNat_lt, hend] at hfire)
      simp only [xfsBtreeGetRec, hfire, if_true]
      refine iff_of_false ?_ (not_not.mpr hex)
      rintro ⟨n, hn⟩
      cases hn
    · have hnex : ¬∃ r ∈ bno, r.startblock.toNat ≤ agbno.toNat ∧
          agbno.toNat < r.startblock.toNat + r.blockcount.toNat := fun hex =>
        hfire (by rw [gt_iff_lt, UInt32.lt_iff_toNat_lt, hend]; exact hcover.mpr hex)
      simp only [xfsBtreeGetRec, hfire, if_false]
      exact iff_of_true ⟨_, rfl⟩ hnex

theorem freeNeighbours_isOk_iff (hsep : SeparatedExtents bno)
    (hfit : ∀ r ∈ bno, r.startblock.toNat + r.blockcount.toNat < 2 ^ 32) :
    (∃ pn, freeNeighbours bno agbno len = .ok pn) ↔
      ¬∃ r ∈ bno, r.startblock.toNat ≤ agbno.toNat ∧ agbno.toNat < r.startblock.toNat + r.blockcount.toNat := by
  rw [← prevNeighbour_isOk_iff hsep hfit]
  obtain ⟨n, hn⟩ := nextNeighbour_isOk hsep.sorted (agbno + len)
  unfold freeNeighbours
  rcases hp : prevNeighbour bno agbno with e | pr
  · simp [bind, Except.bind]
  · simp [bind, Except.bind, hn, pure, Except.pure]

/-- On a well-formed by-block tree, the double-free check passes exactly when the
first block of the range is not free: nothing past `agbno` is looked at. -/
theorem xfsValidateAllocatedExtent_ok_iff (g : Geometry) (hsep : SeparatedExtents bno)
    (hfit : ∀ r ∈ bno, r.startblock.toNat + r.blockcount.toNat < 2 ^ 32)
    (hlen : len ≠ 0) (hr : extentInRange g agbno len) :
    xfsValidateAllocatedExtent g bno agbno len = .ok () ↔
      ¬∃ r ∈ bno, r.startblock.toNat ≤ agbno.toNat ∧ agbno.toNat < r.startblock.toNat + r.blockcount.toNat := by
  rw [← @freeNeighbours_isOk_iff bno agbno len hsep hfit]
  unfold xfsValidateAllocatedExtent
  rcases hf : freeNeighbours bno agbno len with e | pn
  · simp [hlen, hr, bind, Except.bind]
  · simp [hlen, hr, bind, Except.bind, pure, Except.pure]

end Validate

/-- A 1024-block AG whose one free extent is `[110, 120)` and whose AGFL holds its
reserve of 64 blocks (an AGFL of 512-byte sectors has `(512 - 36) / 4 = 119` slots). -/
def doubleFreeMount : Mount :=
  ⟨⟨1024, 119⟩, [⟨[⟨110, 10⟩], [⟨110, 10⟩], 10, 10, (List.range 64).map fun i => UInt32.ofNat (i + 5)⟩]⟩

/-- Freeing `[105, 115)` there, which holds the free blocks 110 to 114: the LE lookup
at 105 finds nothing, the GE lookup at 115 finds nothing, the range is inserted into
both trees, and the AG is left with overlapping free extents and 20 free blocks
counted over 15. -/
theorem xfs_free_extent_accepts_double_free :
    ∃ m, doubleFreeMount.xfsFreeExtent 0 105 10 = (.ok (), m) ∧
      FreeSpaceWF doubleFreeMount.geo (doubleFreeMount.perAg.getD 0 default) ∧
      extentsOverlap ⟨105, 10⟩ ⟨110, 10⟩ ∧
      (m.perAg.getD 0 default).bno = [⟨105, 10⟩, ⟨110, 10⟩] ∧
      (m.perAg.getD 0 default).cnt = [⟨105, 10⟩, ⟨110, 10⟩] ∧
      (m.perAg.getD 0 default).freeblks = 20 ∧ ¬FreeSpaceWF m.geo (m.perAg.getD 0 default) :=
  ⟨_, rfl, by decide, by decide, rfl, rfl, rfl, by decide⟩

/-! ## Where allocations are cut -/

section Cut

variable {req : XfsAllocReq} {found : AllocRec}

/-- The aligned start of the by-size path lies in the record and on the alignment
whenever the record keeps blocks past it: a wrapped `ALIGNED` would make `LOST` exceed
every record that does not wrap. -/
theorem sizeCandidate_spec (hfit : found.startblock.toNat + found.blockcount.toNat < 2 ^ 32)
    (hreq : req.minlen ≤ req.maxlen) {start len : UInt32} (h : sizeCandidate req found = some (start, len)) :
    found.startblock.toNat ≤ start.toNat ∧
      start.toNat + len.toNat ≤ found.startblock.toNat + found.blockcount.toNat ∧
      req.minlen ≤ len ∧ len ≤ req.maxlen ∧ (1 < req.alignment → req.alignment.toNat ∣ start.toNat) := by
  unfold sizeCandidate at h
  simp only [UInt32.le_iff_toNat_le, UInt32.lt_iff_toNat_lt, UInt32.toNat_one] at h hreq ⊢
  split_ifs at h with hmin halign hcut
  · set aligned := (found.startblock + req.alignment - 1) / req.alignment * req.alignment with haligned
    simp only [Option.some.injEq, Prod.mk.injEq] at h
    obtain ⟨rfl, rfl⟩ := h
    obtain ⟨hlost, hrem⟩ := hcut
    have hX := (found.startblock + req.alignment - 1).toNat_lt
    have hq : aligned.toNat = (found.startblock + req.alignment - 1).toNat / req.alignment.toNat * req.alignment.toNat := by
      rw [haligned, UInt32.toNat_mul, UInt32.toNat_div, Nat.mod_eq_of_lt]
      exact lt_of_le_of_lt (Nat.div_mul_le_self _ _) hX
    -- ALIGNED is at or above the start: otherwise LOST wraps past the record's length
    have hge : found.startblock ≤ aligned := by
      by_contra hlt
      rw [UInt32.le_iff_toNat_le, not_le] at hlt
      rw [UInt32.toNat_sub] at hlost
      omega
    have hlostNat : (aligned - found.startblock).toNat = aligned.toNat - found.startblock.toNat :=
      UInt32.toNat_sub_of_le _ _ hge
    have hremNat : (found.blockcount - (aligned - found.startblock)).toNat =
        found.blockcount.toNat - (aligned.toNat - found.startblock.toNat) := by
      rw [UInt32.toNat_sub_of_le _ _ (by rw [UInt32.le_iff_toNat_le, hlostNat]; omega), hlostNat]
    rw [hlostNat] at hlost
    rw [hremNat] at hrem
    simp only [UInt32.toNat_min, hremNat]
    refine ⟨UInt32.le_iff_toNat_le.mp hge, by omega, by omega, by omega, fun _ => ?_⟩
    rw [hq]
    exact Dvd.intro_left _ rfl
  · simp only [Option.some.injEq, Prod.mk.injEq] at h
    obtain ⟨rfl, rfl⟩ := h
    simp only [UInt32.toNat_min]
    exact ⟨le_rfl, by omega, by omega, by omega, fun h1 => absurd h1 halign⟩

/-- The scan stops at a record of the by-size tree, at or after its starting cursor,
and cuts the extent `sizeCandidate` gives. -/
theorem sizeScan_spec {cnt : List AllocRec} : ∀ (fuel ptr : Nat) {p : Nat} {start len : UInt32},
    1 ≤ ptr → ptr ≤ cnt.length → sizeScan cnt req fuel ptr = .ok (some (p, found, start, len)) →
      1 ≤ p ∧ p ≤ cnt.length ∧ found = recAt cnt p ∧ sizeCandidate req found = some (start, len)
  | 0, _, _, _, _, _, _, h => by simp [sizeScan] at h
  | fuel + 1, ptr, p, start, len, h1, hn, h => by
    unfold sizeScan at h
    rcases hc : sizeCandidate req (xfsBtreeGetRec cnt ptr) with _ | ⟨s, l⟩
    · simp only [hc, xfsBtreeIncrement] at h
      split_ifs at h with hnext
      · exact sizeScan_spec fuel (ptr + 1) (by omega) hnext h
      · simp at h
    · simp only [hc, Except.ok.injEq, Option.some.injEq, Prod.mk.injEq] at h
      obtain ⟨rfl, rfl, rfl, rfl⟩ := h
      exact ⟨h1, hn, rfl, hc⟩

/-- The hint cut starts at the hint, inside the record, with a length in range. -/
theorem hintCut_spec (hfit : found.startblock.toNat + found.blockcount.toNat < 2 ^ 32) {len : UInt32}
    (h : hintCut req found = some len) :
    found.startblock.toNat ≤ req.agbno.toNat ∧
      req.agbno.toNat + len.toNat ≤ found.startblock.toNat + found.blockcount.toNat ∧
      req.minlen ≤ len ∧ len ≤ req.maxlen := by
  unfold hintCut at h
  have hend := extentEnd_toNat hfit
  simp only [UInt32.le_iff_toNat_le, UInt32.lt_iff_toNat_lt, ge_iff_le, hend] at h ⊢
  split_ifs at h with hout hshort
  simp only [Option.some.injEq] at h
  subst h
  rw [not_or, not_lt, not_le] at hout
  have hsub : (found.startblock + found.blockcount - req.agbno).toNat =
      found.startblock.toNat + found.blockcount.toNat - req.agbno.toNat := by
    rw [UInt32.toNat_sub_of_le _ _ (UInt32.le_iff_toNat_le.mpr (by rw [hend]; omega)), hend]
  simp only [UInt32.toNat_min, hsub] at hshort ⊢
  omega

end Cut

end Wos.XfsAlloc
