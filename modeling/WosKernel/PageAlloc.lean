import Mathlib

/-! # The buddy page allocator of one zone

`PageAllocator` manages a contiguous zone of 4 KiB pages.  The first `metadata_pages`
hold its own tables; the others are handed out in aligned blocks of `2 ^ k` pages,
`k ≤ MAX_ORDER`.  One flag byte per page says what the page is: the head of a free or of
an allocated block (the order in the low bits), an interior page of one, a cached
order-0 page, or reserved.  The free blocks of each order are threaded on a doubly-linked
list through their first page.  `alloc` takes the head of the smallest non-empty list of
at least the wanted order and splits it down, pushing each upper half on its list;
`free` recovers the order from the head flag and merges the block with its free buddies.

The model follows `page_alloc.cpp` function by function.

* Each free list is the list of its blocks' addresses, head first.  The checks that
  `remove_free_block` makes on a block's `prev` and `next` links are checks on its
  neighbours in the list, and a block that is not on its list fails them.
* A kernel panic is `Except.error` with the panic's text.
* Page indices are naturals.  Where the source adds two 32-bit indices and compares
  (`page_idx + BLOCK_SIZE > total_pages`), the sum is taken modulo `2 ^ 32`
  (`blockOverruns`).
* The free and cached page counters are `uint32_t`s, as in the source.  The caller
  statistics and the lock are left out: nothing the allocator decides reads them.
* The memory word at byte 16 of each page is part of the state (`pageWord16`).  kmalloc's
  medium and large headers keep their magic there; `free` reads it, and the allocator
  never writes it (a free block's links are its first 16 bytes).
-/

namespace Wos.PageAlloc

/-- `paging::PAGE_SIZE`. -/
def pageSize : Nat := 4096

/-- `PageAllocator::MAX_ORDER`: blocks of up to `2 ^ 20` pages. -/
def maxOrder : Nat := 20

def flagFreeInterior : UInt8 := 0x00
def flagCachedOrder0 : UInt8 := 0x20
def flagFreeHead : UInt8 := 0x40
def flagAllocHead : UInt8 := 0x80
def flagAllocCont : UInt8 := 0xC0
def flagReserved : UInt8 := 0xFF

/-- `FLAG_FREE_HEAD | order`. -/
def freeHeadFlag (order : Nat) : UInt8 := flagFreeHead ||| order.toUInt8

/-- `FLAG_ALLOC_HEAD | order`. -/
def allocHeadFlag (order : Nat) : UInt8 := flagAllocHead ||| order.toUInt8

/-- `PageKind`, as `decode_page_kind` leaves it. -/
inductive PageKind
  | unknown
  | free
  | reserved
  | normal
  | pageTable
  | slab
  | medium
  | kmallocLarge
deriving DecidableEq, Repr

/-- `PHYSICAL_PAGE_OWNER_COUNT`: the owners `INVALID` … `SELFTEST`. -/
def physicalPageOwnerCount : Nat := 37

/-- `PhysicalPageOwner::INVALID`. -/
def ownerInvalid : UInt8 := 0

/-- `physical_page_owner_is_valid`. -/
def physicalPageOwnerIsValid (owner : UInt8) : Bool :=
  decide (0 < owner.toNat) && decide (owner.toNat < physicalPageOwnerCount)

/-- `load_page_owner`: a stored byte that names no owner reads as `INVALID`. -/
def loadPageOwner (slot : UInt8) : UInt8 :=
  if physicalPageOwnerIsValid slot then slot else ownerInvalid

/-- The fields of `PageAllocator` that `alloc` and `free` read or write, and the memory
word they read. -/
structure PageAllocator where
  /-- `free_list[k]`: the addresses of the free blocks of order `k`, head first. -/
  freeList : Nat → List Nat
  pageFlags : Nat → UInt8
  pageKinds : Nat → PageKind
  /-- `page_owners`: the owner byte stored for each page. -/
  pageOwners : Nat → UInt8
  pageRefcounts : Nat → Nat
  /-- The 64-bit word at byte 16 of each page. -/
  pageWord16 : Nat → UInt64
  base : Nat
  totalPages : Nat
  metadataPages : Nat
  /-- `owner_pages`, by owner index. -/
  ownerPages : Nat → Nat
  /-- `owner_objects`, by owner index. -/
  ownerObjects : Nat → Nat
  /-- `free_count`: the free pages, cached order-0 pages included. -/
  freeCount : UInt32
  /-- `cached_order0_count`. -/
  cachedOrder0Count : UInt32

/-! The panic monad: `Except String`, whose binds the proofs run through these. -/

@[simp] theorem ok_bind {α β : Type} (x : α) (f : α → Except String β) :
    (Except.ok x >>= f) = f x := rfl

@[simp] theorem error_bind {α β : Type} (e : String) (f : α → Except String β) :
    (Except.error e >>= f) = Except.error e := rfl

@[simp] theorem pure_eq_ok {α : Type} (x : α) : (pure x : Except String α) = Except.ok x := rfl

/-- The array `f` after storing `v` at the `n` indices from `lo` on. -/
def fillRange {α : Type} (f : Nat → α) (lo n : Nat) (v : α) : Nat → α :=
  fun p => if lo ≤ p ∧ p < lo + n then v else f p

theorem fillRange_apply {α : Type} (f : Nat → α) (lo n : Nat) (v : α) (p : Nat) :
    fillRange f lo n v p = if lo ≤ p ∧ p < lo + n then v else f p := rfl

@[simp] theorem fillRange_of_mem {α : Type} {f : Nat → α} {lo n p : Nat} {v : α}
    (h₁ : lo ≤ p) (h₂ : p < lo + n) : fillRange f lo n v p = v := by
  simp [fillRange, h₁, h₂]

@[simp] theorem fillRange_of_lt {α : Type} {f : Nat → α} {lo n p : Nat} {v : α} (h : p < lo) :
    fillRange f lo n v p = f p := by
  simp [fillRange, Nat.not_le.mpr h]

@[simp] theorem fillRange_of_ge {α : Type} {f : Nat → α} {lo n p : Nat} {v : α} (h : lo + n ≤ p) :
    fillRange f lo n v p = f p := by
  simp [fillRange, Nat.not_lt.mpr h]

theorem fillRange_one {α : Type} (f : Nat → α) (lo : Nat) (v : α) :
    fillRange f lo 1 v = Function.update f lo v := by
  funext p
  rw [fillRange_apply, Function.update_apply]
  by_cases hp : p = lo
  · rw [if_pos ⟨hp.ge, by omega⟩, if_pos hp]
  · rw [if_neg (by omega), if_neg hp]

namespace PageAllocator

/-- The allocator with `free_list[order]` replaced. -/
def setFreeList (a : PageAllocator) (order : Nat) (l : List Nat) : PageAllocator :=
  { a with freeList := Function.update a.freeList order l }

/-- The allocator with the flag byte of page `p` replaced. -/
def setFlag (a : PageAllocator) (p : Nat) (v : UInt8) : PageAllocator :=
  { a with pageFlags := Function.update a.pageFlags p v }

end PageAllocator

/-! ## Pointers and free heads -/

/-- `page_to_ptr`. -/
def pageToPtr (base pageIdx : Nat) : Nat := base + pageIdx * pageSize

/-- `ptr_to_page`. -/
def ptrToPage (base ptr : Nat) : Nat := (ptr - base) / pageSize

/-- `ptr_is_page_aligned`. -/
def ptrIsPageAligned (ptr : Nat) : Bool := ptr &&& (pageSize - 1) == 0

/-- `ptr_in_zone`. -/
def ptrInZone (a : PageAllocator) (ptr : Nat) : Bool :=
  ptr != 0 && ptrIsPageAligned ptr && decide (a.base ≤ ptr) &&
    decide (ptr < a.base + a.totalPages * pageSize)

/-- `page_idx + BLOCK_SIZE > total_pages`, the sum taken in `uint32_t`. -/
def blockOverruns (totalPages pageIdx blockSize : Nat) : Bool :=
  decide (totalPages < (pageIdx + blockSize) % 2 ^ 32)

/-- `free_head_is_valid`: `block` points into the zone at a page that heads a free
block of order `order` lying inside the zone. -/
def freeHeadIsValid (a : PageAllocator) (block order : Nat) : Bool :=
  ptrInZone a block &&
    !(decide (a.totalPages ≤ ptrToPage a.base block) ||
      blockOverruns a.totalPages (ptrToPage a.base block) (2 ^ order)) &&
    a.pageFlags (ptrToPage a.base block) == freeHeadFlag order

/-- `link_free_block_unchecked`: push `block` on `free_list[order]`. -/
def linkFreeBlockUnchecked (a : PageAllocator) (order block : Nat) : PageAllocator :=
  a.setFreeList order (block :: a.freeList order)

/-- `remove_free_block`.  `none` is a refused unlink, which leaves everything as it was.
The block's `prev` and `next` are its neighbours on the list; each must be a valid free
head of the same order. -/
def removeFreeBlock (a : PageAllocator) (order block : Nat) : Option PageAllocator :=
  if freeHeadIsValid a block order then
    let l := a.freeList order
    match l.idxOf? block with
    | some i =>
      -- `prev` is null at the head of the list, `next` at its end
      let prevOk := i == 0 || freeHeadIsValid a (l.getD (i - 1) 0) order
      let nextOk := decide (l.length ≤ i + 1) || freeHeadIsValid a (l.getD (i + 1) 0) order
      if prevOk && nextOk then some (a.setFreeList order (l.eraseIdx i)) else none
    | none => none
  else none

/-- What `free_block_pages_are_reusable` asks of page `i` of the free block of order
`order` at `pageIdx`. -/
def freePageIsReusable (a : PageAllocator) (pageIdx order i : Nat) : Bool :=
  a.pageFlags (pageIdx + i) == (if i = 0 then freeHeadFlag order else flagFreeInterior) &&
    a.pageKinds (pageIdx + i) == .free && a.pageRefcounts (pageIdx + i) == 0 &&
    loadPageOwner (a.pageOwners (pageIdx + i)) == ownerInvalid

/-- `free_block_pages_are_reusable`: a page of the block that is not as a free block keeps
it panics. -/
def freeBlockPagesAreReusable (a : PageAllocator) (pageIdx order : Nat) : Except String Bool :=
  if maxOrder < order then .ok false
  else if decide (a.totalPages ≤ pageIdx) || blockOverruns a.totalPages pageIdx (2 ^ order) then
    .ok false
  else if (List.range (2 ^ order)).all (freePageIsReusable a pageIdx order) then .ok true
  else .error "page_alloc free block overlaps live page"

/-! ## Repairing the free lists -/

/-- The page loop of `rebuild_free_lists_from_flags`, from `pageIdx` on, with the counts
`linked` of the pages it linked and `cached` of the cached order-0 pages it passed;
`fuel` bounds the number of pages it visits. -/
def rebuildLoop : Nat → Nat → Nat → Nat → PageAllocator →
    Except String (PageAllocator × Nat × Nat)
  | 0, _, linked, cached, a => .ok (a, linked, cached)
  | fuel + 1, pageIdx, linked, cached, a =>
    if a.totalPages ≤ pageIdx then .ok (a, linked, cached)
    else
      let flags := a.pageFlags pageIdx
      if flags == flagCachedOrder0 then rebuildLoop fuel (pageIdx + 1) linked (cached + 1) a
      -- a page that heads no free block is passed over
      else if flags &&& 0xC0 != flagFreeHead then rebuildLoop fuel (pageIdx + 1) linked cached a
      else
        let order := (flags &&& 0x1F).toNat
        if maxOrder < order || blockOverruns a.totalPages pageIdx (2 ^ order) then
          rebuildLoop fuel (pageIdx + 1) linked cached (a.setFlag pageIdx flagFreeInterior)
        else do
          if (← freeBlockPagesAreReusable a pageIdx order) then
            rebuildLoop fuel (pageIdx + 2 ^ order) (linked + 2 ^ order) cached
              (linkFreeBlockUnchecked a order (pageToPtr a.base pageIdx))
          else rebuildLoop fuel (pageIdx + 1) linked cached a

/-- `rebuild_free_lists_from_flags`: empty every list, relink each free head that the
flags describe, and recount the free and the cached pages, each at most `total_pages`. -/
def rebuildFreeListsFromFlags (a : PageAllocator) : Except String PageAllocator := do
  let (a, linked, cached) ← rebuildLoop a.totalPages 0 0 0 { a with freeList := fun _ => [] }
  pure { a with
    cachedOrder0Count := (min cached a.totalPages).toUInt32
    freeCount := (min (linked + cached) a.totalPages).toUInt32 }

/-- The walk of `free_block_is_reachable` over what is left of the list, `visited`
entries already passed. -/
def freeBlockIsReachableFrom (a : PageAllocator) (order block : Nat) : List Nat → Nat → Bool
  | [], _ => false
  | cur :: rest, visited =>
    if a.totalPages < visited then false
    else if !freeHeadIsValid a cur order then false
    else if cur == block then true
    else freeBlockIsReachableFrom a order block rest (visited + 1)

/-- `free_block_is_reachable`. -/
def freeBlockIsReachable (a : PageAllocator) (order block : Nat) : Bool :=
  freeBlockIsReachableFrom a order block (a.freeList order) 0

/-- `insert_free_block`: push `block`, after rebuilding the lists if the current head is
corrupt (and then only if the rebuild did not link `block` already). -/
def insertFreeBlock (a : PageAllocator) (order block : Nat) : Except String PageAllocator :=
  match a.freeList order with
  | head :: _ =>
    if freeHeadIsValid a head order then .ok (linkFreeBlockUnchecked a order block)
    else do
      let a ← rebuildFreeListsFromFlags a
      if freeBlockIsReachable a order block then pure a
      else pure (linkFreeBlockUnchecked a order block)
  | [] => .ok (linkFreeBlockUnchecked a order block)

/-- `remove_free_block_with_repair`: unlink, or rebuild the lists and unlink once more. -/
def removeFreeBlockWithRepair (a : PageAllocator) (order block : Nat) :
    Except String (Bool × PageAllocator) :=
  match removeFreeBlock a order block with
  | some a => .ok (true, a)
  | none => do
    let a ← rebuildFreeListsFromFlags a
    if freeHeadIsValid a block order then
      match removeFreeBlock a order block with
      | some a' => pure (true, a')
      | none => pure (false, a)
    else pure (false, a)

/-! ## Freeing -/

/-- `page_has_live_tracked_alloc_magic`. -/
def pageHasLiveTrackedAllocMagic (a : PageAllocator) (pageIdx : Nat) (trackedKind : PageKind)
    (magic : UInt64) : Bool :=
  if a.pageKinds pageIdx != trackedKind && a.pageKinds pageIdx != .unknown then false
  else a.pageWord16 pageIdx == magic

/-- `MEDIUM_ALLOC_MAGIC`. -/
def mediumAllocMagic : UInt64 := 0xCAFEBABE87654321

/-- `LARGE_ALLOC_MAGIC`. -/
def largeAllocMagic : UInt64 := 0xDEADBEEF12345678

/-- `page_has_live_medium_alloc_magic`. -/
def pageHasLiveMediumAllocMagic (a : PageAllocator) (pageIdx : Nat) : Bool :=
  pageHasLiveTrackedAllocMagic a pageIdx .medium mediumAllocMagic

/-- `page_has_live_large_alloc_magic`. -/
def pageHasLiveLargeAllocMagic (a : PageAllocator) (pageIdx : Nat) : Bool :=
  pageHasLiveTrackedAllocMagic a pageIdx .kmallocLarge largeAllocMagic

/-- `page_has_live_slab_kind`. -/
def pageHasLiveSlabKind (a : PageAllocator) (pageIdx : Nat) : Bool :=
  a.pageKinds pageIdx == .slab

/-- `allocated_block_has_direct_free_refs`: every page of the block has refcount one. -/
def allocatedBlockHasDirectFreeRefs (a : PageAllocator) (pageIdx order : Nat) : Bool :=
  (List.range (2 ^ order)).all fun i => a.pageRefcounts (pageIdx + i) == 1

/-- `account_owner_alloc`. -/
def accountOwnerAlloc (a : PageAllocator) (owner : UInt8) (pages objects : Nat) :
    Except String PageAllocator :=
  if physicalPageOwnerIsValid owner then
    .ok { a with
      ownerPages := Function.update a.ownerPages owner.toNat (a.ownerPages owner.toNat + pages)
      ownerObjects :=
        Function.update a.ownerObjects owner.toNat (a.ownerObjects owner.toNat + objects) }
  else .error "physical allocation requires a concrete owner"

/-- `account_owner_free`. -/
def accountOwnerFree (a : PageAllocator) (owner : UInt8) (pages objects : Nat) :
    Except String PageAllocator :=
  if !physicalPageOwnerIsValid owner || decide (a.ownerPages owner.toNat < pages) ||
      decide (a.ownerObjects owner.toNat < objects) then
    .error "physical owner accounting underflow"
  else
    .ok { a with
      ownerPages := Function.update a.ownerPages owner.toNat (a.ownerPages owner.toNat - pages)
      ownerObjects :=
        Function.update a.ownerObjects owner.toNat (a.ownerObjects owner.toNat - objects) }

/-- The owner release of `free_allocated_block`: one owner for the whole block, which
gives back its pages and one object per allocated head among them. -/
def releaseBlockOwner (a : PageAllocator) (pageIdx blockSize : Nat) :
    Except String PageAllocator :=
  let owner := loadPageOwner (a.pageOwners pageIdx)
  if (List.range blockSize).all fun i => loadPageOwner (a.pageOwners (pageIdx + i)) == owner then
    accountOwnerFree a owner blockSize
      ((List.range blockSize).countP fun i => a.pageFlags (pageIdx + i) &&& 0xC0 == flagAllocHead)
  else .error "physical allocation spans multiple owners"

/-- The loop of `free_allocated_block` that clears the flags, kinds, owners and refcounts
of the block. -/
def clearAllocatedBlock (a : PageAllocator) (pageIdx blockSize : Nat) : PageAllocator :=
  { a with
    pageFlags := fillRange a.pageFlags pageIdx blockSize flagFreeInterior
    pageKinds := fillRange a.pageKinds pageIdx blockSize .free
    pageOwners := fillRange a.pageOwners pageIdx blockSize ownerInvalid
    pageRefcounts := fillRange a.pageRefcounts pageIdx blockSize 0 }

/-- The coalescing loop of `free_allocated_block`: while below `MAX_ORDER`, merge the
block of order `k` at `pageIdx` with its buddy when the buddy is a free head of order `k`
that unlinks.  Returns the state, the merged block's head and its order; `fuel` counts
the orders left. -/
def coalesceLoop : Nat → PageAllocator → Nat → Nat → Except String (PageAllocator × Nat × Nat)
  | 0, a, pageIdx, k => .ok (a, pageIdx, k)
  | fuel + 1, a, pageIdx, k =>
    if k < maxOrder then
      let buddyIdx := pageIdx ^^^ 2 ^ k
      if decide (a.totalPages ≤ buddyIdx) || a.pageFlags buddyIdx != freeHeadFlag k then
        .ok (a, pageIdx, k)
      else do
        let (removed, a) ← removeFreeBlockWithRepair a k (pageToPtr a.base buddyIdx)
        if removed then
          coalesceLoop fuel (a.setFlag buddyIdx flagFreeInterior) (min buddyIdx pageIdx) (k + 1)
        else pure (a, pageIdx, k)
    else .ok (a, pageIdx, k)

/-- `free_allocated_block`: the bytes freed and the state after. -/
def freeAllocatedBlock (a : PageAllocator) (pageIdx order : Nat) (releaseOwner : Bool) :
    Except String (Nat × PageAllocator) :=
  if maxOrder < order then .ok (0, a)
  else if decide (a.totalPages ≤ pageIdx) || blockOverruns a.totalPages pageIdx (2 ^ order) then
    .ok (0, a)
  else do
    let a ← if releaseOwner then releaseBlockOwner a pageIdx (2 ^ order) else pure a
    let (a, head, k) ←
      coalesceLoop (maxOrder - order) (clearAllocatedBlock a pageIdx (2 ^ order)) pageIdx order
    let a ← insertFreeBlock (a.setFlag head (freeHeadFlag k)) k (pageToPtr a.base head)
    pure (2 ^ order * pageSize, { a with freeCount := a.freeCount + (2 ^ order).toUInt32 })

/-- `PageAllocator::free`: the bytes freed (zero for a refused pointer) and the state
after. -/
def free (a : PageAllocator) (ptr : Nat) : Except String (Nat × PageAllocator) :=
  if ptr == 0 || !ptrInZone a ptr then .ok (0, a)
  else
    let pageIdx := ptrToPage a.base ptr
    let flags := a.pageFlags pageIdx
    if decide (a.totalPages ≤ pageIdx) || flags &&& 0xC0 != 0x80 then .ok (0, a)
    else if pageHasLiveMediumAllocMagic a pageIdx then
      .error "page_free called on live kmalloc medium alloc"
    else if pageHasLiveLargeAllocMagic a pageIdx then
      .error "page_free called on live kmalloc large alloc"
    else
      let order := (flags &&& 0x1F).toNat
      if maxOrder < order then .ok (0, a)
      else if (List.range (2 ^ order)).any fun i => pageHasLiveSlabKind a (pageIdx + i) then
        .ok (0, a)
      else if !allocatedBlockHasDirectFreeRefs a pageIdx order then .ok (0, a)
      else freeAllocatedBlock a pageIdx order true

/-! ## Allocating -/

/-- `__builtin_clzll`. -/
def clzll (x : UInt64) : Nat := x.toBitVec.clz.toNat

/-- `size_to_order`: the least order whose block holds `sizeBytes`, if it is at most
`MAX_ORDER`. -/
def sizeToOrder (sizeBytes : Nat) : Option Nat :=
  let pages := sizeBytes / pageSize + (if sizeBytes % pageSize != 0 then 1 else 0)
  if pages ≤ 1 then some 0
  else if 2 ^ maxOrder < pages then none
  else some (64 - clzll (UInt64.ofNat (pages - 1)))

/-- Where one pass of `alloc`'s search loop ends: a block of order `k` at `pageIdx`
unlinked, a restart from the wanted order after the free lists were repaired, or no
block up to `MAX_ORDER`. -/
inductive SearchResult
  | found (k pageIdx : Nat) (a : PageAllocator)
  | restart (a : PageAllocator)
  | exhausted (a : PageAllocator)

/-- One pass of the search loop of `alloc`, over the orders from `k` up; `fuel` counts
the orders left to `MAX_ORDER`.  Before the lists have been repaired, a corrupt head or a
refused unlink restarts the search; after, that order is passed over. -/
def allocSearch (repaired : Bool) : Nat → Nat → PageAllocator → Except String SearchResult
  | 0, _, a => .ok (.exhausted a)
  | fuel + 1, k, a =>
    match a.freeList k with
    | [] => allocSearch repaired fuel (k + 1) a
    | block :: _ =>
      if freeHeadIsValid a block k then do
        let (removed, a') ← removeFreeBlockWithRepair a k block
        if removed then pure (.found k (ptrToPage a.base block) a')
        else if repaired then allocSearch repaired fuel (k + 1) a'
        else pure (.restart a')
      else if repaired then allocSearch repaired fuel (k + 1) a
      else do
        let a' ← rebuildFreeListsFromFlags a
        pure (.restart a')

/-- The flag writes of one round of the split loop: the block of order `k` at
`buddyIdx` is flagged as a free block, head first. -/
def markFreeBlock (a : PageAllocator) (buddyIdx k : Nat) : PageAllocator :=
  { a with
    pageFlags := Function.update
      (fillRange a.pageFlags (buddyIdx + 1) (2 ^ k - 1) flagFreeInterior) buddyIdx
      (freeHeadFlag k) }

/-- The split loop of `alloc`: from order `k` down to `order`, the upper half of the
block at `pageIdx` becomes a free block on its list. -/
def splitLoop (pageIdx order : Nat) : Nat → PageAllocator → Except String PageAllocator
  | 0, a => .ok a
  | k + 1, a =>
    if order < k + 1 then do
      let buddyIdx := pageIdx + 2 ^ k
      let a ← insertFreeBlock (markFreeBlock a buddyIdx k) k (pageToPtr a.base buddyIdx)
      splitLoop pageIdx order k a
    else .ok a

/-- The marking loops of `alloc`: the block of order `order` at `pageIdx` becomes an
allocated block of `owner`, each page of kind `NORMAL` with refcount one. -/
def markAllocated (a : PageAllocator) (pageIdx order : Nat) (owner : UInt8) : PageAllocator :=
  { a with
    pageFlags := Function.update
      (fillRange a.pageFlags (pageIdx + 1) (2 ^ order - 1) flagAllocCont) pageIdx
      (allocHeadFlag order)
    pageKinds := fillRange a.pageKinds pageIdx (2 ^ order) .normal
    pageOwners := fillRange a.pageOwners pageIdx (2 ^ order) owner
    pageRefcounts := fillRange a.pageRefcounts pageIdx (2 ^ order) 1 }

/-- `PageAllocator::alloc`: the address of the block (zero for `nullptr`) and the state
after.  The search loop restarts at most once, after repairing the lists, so it is two
passes of `allocSearch`. -/
def alloc (a : PageAllocator) (sizeBytes : Nat) (owner : UInt8) :
    Except String (Nat × PageAllocator) :=
  match sizeToOrder sizeBytes with
  | none => .ok (0, a)
  | some order => do
    let first ← allocSearch false (maxOrder + 1 - order) order a
    let r ← match first with
      | .restart a' => allocSearch true (maxOrder + 1 - order) order a'
      | r => pure r
    match r with
    | .found k pageIdx a =>
      if (← freeBlockPagesAreReusable a pageIdx k) then
        let a ← splitLoop pageIdx order k a
        let a ← accountOwnerAlloc (markAllocated a pageIdx order owner) owner (2 ^ order) 1
        pure (pageToPtr a.base pageIdx, { a with freeCount := a.freeCount - (2 ^ order).toUInt32 })
      else pure (0, a)
    | .restart a => pure (0, a)
    | .exhausted a => pure (0, a)

/-! ## The order-0 paths and the page cache

A cached order-0 page is a free page that a per-CPU cache holds outside the free lists:
flagged `FLAG_CACHED_ORDER0`, of kind `FREE`, with no owner and no reference, counted in
both `free_count` and `cached_order0_count`. -/

/-- The four stores to page `p` that the order-0 paths make: its flag byte, its kind, its
owner and its refcount. -/
def storePage (a : PageAllocator) (p : Nat) (flag : UInt8) (kind : PageKind) (owner : UInt8)
    (refcount : Nat) : PageAllocator :=
  { a with
    pageFlags := Function.update a.pageFlags p flag
    pageKinds := Function.update a.pageKinds p kind
    pageOwners := Function.update a.pageOwners p owner
    pageRefcounts := Function.update a.pageRefcounts p refcount }

/-- `order0_free_head_is_reusable`: `block` is a valid free head of order 0 whose page has
the kind, refcount and owner of a free page. -/
def order0FreeHeadIsReusable (a : PageAllocator) (block : Nat) : Bool :=
  let pageIdx := ptrToPage a.base block
  freeHeadIsValid a block 0 && a.pageKinds pageIdx == .free && a.pageRefcounts pageIdx == 0 &&
    loadPageOwner (a.pageOwners pageIdx) == ownerInvalid

/-- The start that `alloc_order0` and `claim_free_order0_for_cache` share: the head of
`free_list[0]`, or after a rebuild of the lists the new head, if it is reusable, unlinked.
The page it took, if any, and the state after. -/
def takeFreeOrder0 (a : PageAllocator) : Except String (Option Nat × PageAllocator) :=
  match a.freeList 0 with
  | [] => .ok (none, a)
  | block :: _ => do
    let (block, a) ← if order0FreeHeadIsReusable a block then pure (some block, a) else do
      let a ← rebuildFreeListsFromFlags a
      match a.freeList 0 with
      | block :: _ => pure (if order0FreeHeadIsReusable a block then some block else none, a)
      | [] => pure (none, a)
    match block with
    | none => pure (none, a)
    | some block =>
      let (removed, a) ← removeFreeBlockWithRepair a 0 block
      pure (if removed then some (ptrToPage a.base block) else none, a)

/-- `PageAllocator::alloc_order0`: one page off `free_list[0]`, which splits no larger
block; null when there is none. -/
def allocOrder0 (a : PageAllocator) (owner : UInt8) : Except String (Nat × PageAllocator) := do
  let (taken, a) ← takeFreeOrder0 a
  match taken with
  | none => pure (0, a)
  | some pageIdx =>
    let a ← accountOwnerAlloc (storePage a pageIdx flagAllocHead .normal owner 1) owner 1 1
    pure (pageToPtr a.base pageIdx, { a with freeCount := a.freeCount - 1 })

/-- `PageAllocator::claim_free_order0_for_cache`: one page off `free_list[0]` becomes a
cached order-0 page.  Its address and index, both zero when there is none. -/
def claimFreeOrder0ForCache (a : PageAllocator) :
    Except String ((Nat × Nat) × PageAllocator) := do
  let (taken, a) ← takeFreeOrder0 a
  match taken with
  | none => pure ((0, 0), a)
  | some pageIdx =>
    let a := storePage a pageIdx flagCachedOrder0 .free ownerInvalid 0
    pure ((pageToPtr a.base pageIdx, pageIdx),
      { a with cachedOrder0Count := a.cachedOrder0Count + 1 })

/-- `PageAllocator::cache_allocated_order0`: the allocated order-0 page at `ptr`, with no
reference but its allocation's, becomes a cached order-0 page, and its owner gives it
back.  Whether it did, and its index (zero when not). -/
def cacheAllocatedOrder0 (a : PageAllocator) (ptr : Nat) :
    Except String ((Bool × Nat) × PageAllocator) :=
  if ptr == 0 || !ptrInZone a ptr then .ok ((false, 0), a)
  else
    let pageIdx := ptrToPage a.base ptr
    if decide (a.totalPages ≤ pageIdx) || a.pageFlags pageIdx != flagAllocHead then
      .ok ((false, 0), a)
    else if a.pageRefcounts pageIdx != 1 then .ok ((false, 0), a)
    else if pageHasLiveSlabKind a pageIdx then .ok ((false, 0), a)
    else if pageHasLiveMediumAllocMagic a pageIdx then
      .error "page_free called on live kmalloc medium alloc"
    else if pageHasLiveLargeAllocMagic a pageIdx then
      .error "page_free called on live kmalloc large alloc"
    else do
      let a ← accountOwnerFree a (loadPageOwner (a.pageOwners pageIdx)) 1 1
      let a := storePage a pageIdx flagCachedOrder0 .free ownerInvalid 0
      pure ((true, pageIdx),
        { a with freeCount := a.freeCount + 1, cachedOrder0Count := a.cachedOrder0Count + 1 })

/-- `PageAllocator::alloc_cached_order0_at`: the cached order-0 page `pageIdx` goes to
`owner`; null when the page is not as the cache keeps it or the counters hold no cached
page. -/
def allocCachedOrder0At (a : PageAllocator) (pageIdx : Nat) (owner : UInt8) :
    Except String (Nat × PageAllocator) :=
  if decide (a.totalPages ≤ pageIdx) || a.pageFlags pageIdx != flagCachedOrder0 then .ok (0, a)
  else if a.pageKinds pageIdx != .free then .ok (0, a)
  else if loadPageOwner (a.pageOwners pageIdx) != ownerInvalid then .ok (0, a)
  else if a.pageRefcounts pageIdx != 0 then .ok (0, a)
  else if a.freeCount == 0 || a.cachedOrder0Count == 0 then .ok (0, a)
  else do
    let a ← accountOwnerAlloc (storePage a pageIdx flagAllocHead .normal owner 1) owner 1 1
    pure (pageToPtr a.base pageIdx,
      { a with freeCount := a.freeCount - 1, cachedOrder0Count := a.cachedOrder0Count - 1 })

/-- `PageAllocator::release_cached_order0_at`: the cached order-0 page `pageIdx` goes back
to the free lists, through `free_allocated_block` with no owner to release (the owner gave
the page back when it was cached). -/
def releaseCachedOrder0At (a : PageAllocator) (pageIdx : Nat) :
    Except String (Nat × PageAllocator) :=
  if decide (a.totalPages ≤ pageIdx) || a.pageFlags pageIdx != flagCachedOrder0 then .ok (0, a)
  else if a.pageKinds pageIdx != .free then .ok (0, a)
  else if a.pageRefcounts pageIdx != 0 then .ok (0, a)
  else if a.freeCount == 0 || a.cachedOrder0Count == 0 then .ok (0, a)
  else
    let a := { a with
      cachedOrder0Count := a.cachedOrder0Count - 1
      freeCount := a.freeCount - 1 }
    freeAllocatedBlock (a.setFlag pageIdx flagAllocHead) pageIdx 0 false

/-- `PageAllocator::free_order0_at`: free the allocated order-0 page `pageIdx`.  Unlike
`free`, it checks for a slab page before kmalloc's headers and asks nothing of the
refcount. -/
def freeOrder0At (a : PageAllocator) (pageIdx : Nat) : Except String (Nat × PageAllocator) :=
  if a.totalPages ≤ pageIdx then .ok (0, a)
  else if a.pageFlags pageIdx != flagAllocHead then .ok (0, a)
  else if pageHasLiveSlabKind a pageIdx then .ok (0, a)
  else if pageHasLiveMediumAllocMagic a pageIdx then
    .error "page_free called on live kmalloc medium alloc"
  else if pageHasLiveLargeAllocMagic a pageIdx then
    .error "page_free called on live kmalloc large alloc"
  else freeAllocatedBlock a pageIdx 0 true

/-! ## Freeing a range of order-0 pages -/

/-- The loop of `largest_order_for_aligned_run`, from `order` on; `fuel` counts the orders
left. -/
def largestOrderLoop (pageIdx pageCount : Nat) : Nat → Nat → Nat
  | 0, order => order
  | fuel + 1, order =>
    if order < maxOrder then
      let nextBlockSize := 2 ^ (order + 1)
      if pageCount < nextBlockSize then order
      else if pageIdx &&& (nextBlockSize - 1) != 0 then order
      else largestOrderLoop pageIdx pageCount fuel (order + 1)
    else order

/-- `largest_order_for_aligned_run`: the largest order up to `MAX_ORDER` of a block aligned
at `pageIdx` that the `pageCount` pages from there hold. -/
def largestOrderForAlignedRun (pageIdx pageCount : Nat) : Nat :=
  largestOrderLoop pageIdx pageCount maxOrder 0

/-- The check loop of `free_order0_range_at` over the pages `ps`: each must be an
allocated order-0 page with no reference left that is no slab page, and none may hold a
live kmalloc header. -/
def rangeIsFreeable (a : PageAllocator) : List Nat → Except String Bool
  | [] => .ok true
  | p :: ps =>
    if a.pageFlags p != flagAllocHead then .ok false
    else if a.pageRefcounts p != 0 then .ok false
    else if pageHasLiveSlabKind a p then .ok false
    else if pageHasLiveMediumAllocMagic a p then
      .error "page_free called on live kmalloc medium alloc"
    else if pageHasLiveLargeAllocMagic a p then
      .error "page_free called on live kmalloc large alloc"
    else rangeIsFreeable a ps

/-- The inner loop of `free_order0_range_at`: the length of the run of pages from `cursor`
of the owner `owner`, counted from `samePages` up to `remaining`; `fuel` bounds the count. -/
def sameOwnerRun (a : PageAllocator) (cursor remaining : Nat) (owner : UInt8) :
    Nat → Nat → Nat
  | 0, samePages => samePages
  | fuel + 1, samePages =>
    if samePages < remaining ∧ loadPageOwner (a.pageOwners (cursor + samePages)) = owner then
      sameOwnerRun a cursor remaining owner fuel (samePages + 1)
    else samePages

/-- The release loop of `free_order0_range_at`: while pages remain from `cursor`, free the
largest aligned block within the run of pages of one owner there.  The bytes freed, added
to `freed`, and the state after; `fuel` bounds the number of blocks. -/
def freeRangeLoop : Nat → Nat → Nat → Nat → PageAllocator → Except String (Nat × PageAllocator)
  | 0, _, _, freed, a => .ok (freed, a)
  | fuel + 1, cursor, remaining, freed, a =>
    if remaining = 0 then .ok (freed, a)
    else do
      let owner := loadPageOwner (a.pageOwners cursor)
      let samePages := sameOwnerRun a cursor remaining owner remaining 1
      let order := largestOrderForAlignedRun cursor samePages
      let (bytes, a) ← freeAllocatedBlock a cursor order true
      freeRangeLoop fuel (cursor + 2 ^ order) (remaining - 2 ^ order) (freed + bytes) a

/-- `PageAllocator::free_order0_range_at`: free the `pageCount` allocated order-0 pages from
`pageIdx`, whose references have all been dropped, in aligned blocks of one owner each. -/
def freeOrder0RangeAt (a : PageAllocator) (pageIdx pageCount : Nat) :
    Except String (Nat × PageAllocator) :=
  if pageCount = 0 ∨ a.totalPages ≤ pageIdx ∨ a.totalPages - pageIdx < pageCount then .ok (0, a)
  else do
    if (← rangeIsFreeable a ((List.range pageCount).map (pageIdx + ·))) then
      freeRangeLoop pageCount pageIdx pageCount 0 a
    else pure (0, a)

/-! ## Allocated blocks -/

/-- The checks that `mark_allocated_block_kind` and `reassign_allocated_block_owner` make
of `ptr`: it is the address of a page of the zone flagged as an allocated head, whose
block has an order up to `MAX_ORDER` and lies in the zone.  The page and the order. -/
def allocatedBlockAt (a : PageAllocator) (ptr : Nat) : Option (Nat × Nat) :=
  if ptr == 0 || !ptrInZone a ptr then none
  else
    let pageIdx := ptrToPage a.base ptr
    if a.totalPages ≤ pageIdx then none
    else
      let flags := a.pageFlags pageIdx
      if flags &&& 0xC0 != flagAllocHead then none
      else
        let order := (flags &&& 0x1F).toNat
        if maxOrder < order || blockOverruns a.totalPages pageIdx (2 ^ order) then none
        else some (pageIdx, order)

/-- `PageAllocator::mark_allocated_block_kind`: every page of the allocated block at `ptr`
gets the kind `kind`. -/
def markAllocatedBlockKind (a : PageAllocator) (ptr : Nat) (kind : PageKind) :
    Bool × PageAllocator :=
  match allocatedBlockAt a ptr with
  | none => (false, a)
  | some (pageIdx, order) =>
    (true, { a with pageKinds := fillRange a.pageKinds pageIdx (2 ^ order) kind })

/-- `PageAllocator::reassign_allocated_block_owner`: the allocated block at `ptr`, all of
one owner, goes to `owner` with its pages and objects.  (The source refuses an invalid
`owner` together with a null pointer; either refusal changes nothing.) -/
def reassignAllocatedBlockOwner (a : PageAllocator) (ptr : Nat) (owner : UInt8) :
    Except String (Bool × PageAllocator) :=
  if !physicalPageOwnerIsValid owner then .ok (false, a)
  else
    match allocatedBlockAt a ptr with
    | none => .ok (false, a)
    | some (pageIdx, order) =>
      let oldOwner := loadPageOwner (a.pageOwners pageIdx)
      if !(List.range (2 ^ order)).all fun i =>
          loadPageOwner (a.pageOwners (pageIdx + i)) == oldOwner then .ok (false, a)
      else
        let objectCount := (List.range (2 ^ order)).countP fun i =>
          a.pageFlags (pageIdx + i) &&& 0xC0 == flagAllocHead
        if oldOwner == owner then .ok (true, a)
        else do
          let a ← accountOwnerFree a oldOwner (2 ^ order) objectCount
          let a ← accountOwnerAlloc a owner (2 ^ order) objectCount
          pure (true, { a with pageOwners := fillRange a.pageOwners pageIdx (2 ^ order) owner })

/-- The stores of `split_allocated_block_to_order0` over the block of order `order` at
`pageIdx`: every page becomes an allocated order-0 head of kind `kind` and owner `owner`, a
page with no reference gets one, and the owner holds one object more for each page but the
head. -/
def splitStores (a : PageAllocator) (pageIdx order : Nat) (kind : PageKind) (owner : UInt8) :
    PageAllocator :=
  { a with
    ownerObjects := Function.update a.ownerObjects owner.toNat
      (a.ownerObjects owner.toNat + (2 ^ order - 1))
    pageFlags := fillRange a.pageFlags pageIdx (2 ^ order) flagAllocHead
    pageKinds := fillRange a.pageKinds pageIdx (2 ^ order) kind
    pageOwners := fillRange a.pageOwners pageIdx (2 ^ order) owner
    -- a page with no reference gets one; the others keep theirs
    pageRefcounts := fun p =>
      if pageIdx ≤ p ∧ p < pageIdx + 2 ^ order ∧ a.pageRefcounts p = 0 then 1
      else a.pageRefcounts p }

/-- `PageAllocator::split_allocated_block_to_order0`: the allocated block at `ptr` becomes
`2 ^ order` allocated order-0 pages of its kind and owner, each with a reference, and its
owner holds one object per page.  Unlike the two above it checks no `MAX_ORDER`. -/
def splitAllocatedBlockToOrder0 (a : PageAllocator) (ptr : Nat) : Bool × PageAllocator :=
  if ptr == 0 || !ptrInZone a ptr then (false, a)
  else
    let pageIdx := ptrToPage a.base ptr
    if a.totalPages ≤ pageIdx then (false, a)
    else
      let flags := a.pageFlags pageIdx
      if flags &&& 0xC0 != flagAllocHead then (false, a)
      else
        let order := (flags &&& 0x1F).toNat
        if order = 0 then (true, a)
        else if blockOverruns a.totalPages pageIdx (2 ^ order) then (false, a)
        else
          let kind := a.pageKinds pageIdx
          let owner := loadPageOwner (a.pageOwners pageIdx)
          if !physicalPageOwnerIsValid owner then (false, a)
          else (true, splitStores a pageIdx order kind owner)

/-- `PageAllocator::kind_of`. -/
def kindOf (a : PageAllocator) (ptr : Nat) : PageKind :=
  if ptr == 0 || !ptrInZone a ptr then .unknown
  else
    let pageIdx := ptrToPage a.base ptr
    if a.totalPages ≤ pageIdx then .unknown else a.pageKinds pageIdx

/-! ## Carving the zone -/

/-- The order loop of `init`: the largest order up to `MAX_ORDER` at which `page` is
aligned and the block fits in the zone, grown from `order`; `fuel` counts the orders
left. -/
def initOrderLoop (page totalPages : Nat) : Nat → Nat → Nat
  | 0, order => order
  | fuel + 1, order =>
    if order < maxOrder then
      let blockSize := 2 ^ (order + 1)
      if page &&& (blockSize - 1) != 0 || blockOverruns totalPages page blockSize then order
      else initOrderLoop page totalPages fuel (order + 1)
    else order

/-- The decomposition loop of `init`: from `page` on, stamp the head of the largest
aligned block that fits and link it; `fuel` bounds the number of blocks. -/
def initLoop : Nat → Nat → PageAllocator → Except String PageAllocator
  | 0, _, a => .ok a
  | fuel + 1, page, a =>
    if page < a.totalPages then do
      let order := initOrderLoop page a.totalPages maxOrder 0
      let a ← insertFreeBlock (a.setFlag page (freeHeadFlag order)) order (pageToPtr a.base page)
      initLoop fuel ((page + 2 ^ order) % 2 ^ 32)
        { a with freeCount := a.freeCount + (2 ^ order).toUInt32 }
    else .ok a

/-- `PageAllocator::init` over a zone of `totalPages` pages at `zoneBase` whose first
`metadataPages` hold the tables (the layout arithmetic that computes them is not
modelled); `word16` is what the zone's memory holds at byte 16 of each page. -/
def init (zoneBase totalPages metadataPages : Nat) (word16 : Nat → UInt64) :
    Except String PageAllocator :=
  let zone : PageAllocator :=
    { freeList := fun _ => [], pageFlags := fun _ => flagReserved,
      pageKinds := fun _ => .reserved, pageOwners := fun _ => ownerInvalid,
      pageRefcounts := fun _ => 0, pageWord16 := word16, base := zoneBase, totalPages,
      metadataPages, ownerPages := fun _ => 0, ownerObjects := fun _ => 0, freeCount := 0,
      cachedOrder0Count := 0 }
  -- a zone too small for any usable page stays reserved
  if totalPages ≤ metadataPages then .ok zone
  else
    initLoop totalPages metadataPages
      { zone with
        pageFlags := fun p => if p < metadataPages then flagReserved else flagFreeInterior
        pageKinds := fun p => if p < metadataPages then .reserved else .free }

end Wos.PageAlloc
