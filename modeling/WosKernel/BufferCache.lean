import Mathlib

/-! # The buffer cache of one block device

Cached buffers (`BufHead`) cover runs of whole device blocks and may overlap: a
block can be cached by several aliases of different sizes.  Which alias holds the
newest bytes of a block is never stored; it is rebuilt from per-buffer dirty epochs.
Writeback snapshots, and buffers returned by `bread`, overlay every cached alias
newer than the source, oldest first (`overlayNewer`), so that the newest bytes end
on top.

The model keeps one device and counts sizes in blocks; a block's bytes are a value
of an arbitrary type `V`.  The hash table, the range tree, the dirty tree and list
and the LRU list are all views of one list of buffers (`Cache.buffers`), and every
lookup scans that list with the criteria the code's index walk applies.  Allocation
failures are not modelled; a device write reports success or failure as its caller
chooses.

Two defects are exhibited on concrete runs of `World.step`:

* a clean buffer that is the newest alias of a block can be reclaimed while an
  older alias of that block is still dirty; the older alias's writeback then puts
  stale bytes on the device, and `bread` returns them
  (`reclaimed_newer_alias_loses_write`);
* `sync_blockdev` stops at the oldest dirty buffer when a journal hold on an
  overlapping alias blocks it, leaving a later, unrelated dirty buffer dirty while it
  returns success (`sync_blockdev_stops_at_journal_hold`).
-/

namespace Wos.BufferCache

variable {V : Type}

/-- The fields of a cached buffer the model reads.  `data` holds one value per device
block, so its length is `size / block_size`. -/
structure BufHead (V : Type) where
  id : Nat
  blockNo : Nat
  data : List V
  valid : Bool
  dirty : Bool
  writeback : Bool
  refcount : Nat
  journalPending : Nat
  dirtyEpoch : Nat
deriving DecidableEq, Repr

/-- The number of device blocks a buffer covers (`buffer_block_count`). -/
def BufHead.count (b : BufHead V) : Nat := b.data.length

/-- `buffer_overlaps_range`: the buffer shares a block with `[blockNo, blockNo + count)`. -/
def BufHead.overlaps (b : BufHead V) (blockNo count : Nat) : Bool :=
  decide (b.blockNo < blockNo + count ∧ blockNo < b.blockNo + b.count)

/-- The cache, the device, and the epoch and identity counters. -/
structure Cache (V : Type) where
  buffers : List (BufHead V)
  disk : Nat → V
  nextDirtyEpoch : Nat
  nextId : Nat

/-- The buffer with identity `id`. -/
def Cache.get? (c : Cache V) (id : Nat) : Option (BufHead V) := c.buffers.find? (·.id == id)

/-- The cache with buffer `id` changed by `f`. -/
def Cache.modify (c : Cache V) (id : Nat) (f : BufHead V → BufHead V) : Cache V :=
  { c with buffers := c.buffers.map fun b => if b.id == id then f b else b }

/-! ## Overlaying newer aliases -/

/-- `overlay_cached_alias_into_range`: the blocks of `[blockNo, blockNo + dst.length)`
that `a` covers take its bytes. -/
def overlayAlias [Inhabited V] (a : BufHead V) (blockNo : Nat) (dst : List V) : List V :=
  dst.mapIdx fun i v =>
    if a.blockNo ≤ blockNo + i ∧ blockNo + i < a.blockNo + a.count then
      a.data.getD (blockNo + i - a.blockNo) v
    else v

/-- The oldest buffer that `sel` admits with an epoch above `minEpoch`
(`find_oldest_newer_cached_range_alias_locked`,
`find_oldest_matching_dirty_buffer_locked`).  Epochs are distinct, so the first
of the oldest is the one the index walk finds. -/
def oldestAfter (sel : BufHead V → Bool) (minEpoch : Nat) : List (BufHead V) → Option (BufHead V)
  | [] => none
  | b :: rest =>
    let r := oldestAfter sel minEpoch rest
    if sel b ∧ minEpoch < b.dirtyEpoch then
      match r with
      | some o => if o.dirtyEpoch < b.dirtyEpoch then some o else some b
      | none => some b
    else r

/-- The overlay loop shared by `overlay_newer_cached_range_locked` and
`copy_dirty_bdev_range_locked`: take the oldest admitted alias newer than
`minEpoch`, copy it over `dst`, and continue above its epoch.  Each pass raises the
epoch bound past one more buffer, so `fuel = buffers.length` suffices. -/
def overlayLoop [Inhabited V] (bufs : List (BufHead V)) (sel : BufHead V → Bool) (blockNo : Nat) :
    Nat → Nat → List V → List V
  | 0, _, dst => dst
  | fuel + 1, minEpoch, dst =>
    match oldestAfter sel minEpoch bufs with
    | none => dst
    | some a => overlayLoop bufs sel blockNo fuel a.dirtyEpoch (overlayAlias a blockNo dst)

/-- `oldestAfter` finds nothing exactly when no buffer is admitted above the bound. -/
theorem oldestAfter_eq_none {sel : BufHead V → Bool} {minEpoch : Nat} {bufs : List (BufHead V)} :
    oldestAfter sel minEpoch bufs = none ↔ ∀ b ∈ bufs, sel b = true → b.dirtyEpoch ≤ minEpoch := by
  induction bufs with
  | nil => simp [oldestAfter]
  | cons b rest ih =>
    simp only [oldestAfter, List.mem_cons, forall_eq_or_imp]
    by_cases hb : sel b = true ∧ minEpoch < b.dirtyEpoch
    · rw [if_pos hb]
      constructor
      · intro h
        generalize oldestAfter sel minEpoch rest = r at h
        cases r with
        | none => simp at h
        | some o => dsimp only at h; split at h <;> simp at h
      · rintro ⟨h, -⟩
        exact absurd (h hb.1) (by omega)
    · rw [if_neg hb, ih]
      constructor
      · intro h
        exact ⟨fun hs => by have := not_and.mp hb hs; omega, h⟩
      · exact fun h => h.2

/-- With no admitted alias above the bound, the overlay leaves the bytes alone. -/
theorem overlayLoop_of_none [Inhabited V] {bufs : List (BufHead V)} {sel : BufHead V → Bool}
    {blockNo minEpoch : Nat} (fuel : Nat) (dst : List V) (h : oldestAfter sel minEpoch bufs = none) :
    overlayLoop bufs sel blockNo fuel minEpoch dst = dst := by
  cases fuel with
  | zero => rfl
  | succ fuel => rw [overlayLoop, h]

/-- `cached_alias_can_overlay_range`, epoch bound aside: a valid buffer sharing a
block with the range. -/
def canOverlay (blockNo count : Nat) (b : BufHead V) : Bool := b.valid && b.overlaps blockNo count

/-- `overlay_newer_cached_range_locked`: overlay every valid cached alias newer than
`minEpoch`, oldest first. -/
def overlayNewer [Inhabited V] (c : Cache V) (blockNo : Nat) (minEpoch : Nat) (dst : List V) : List V :=
  overlayLoop c.buffers (canOverlay blockNo dst.length) blockNo c.buffers.length minEpoch dst

/-- **Only cached aliases are overlaid.**  When no valid buffer sharing a block with
the range is newer than `minEpoch`, the overlay returns the bytes it was given: a
newer alias that has left the cache contributes nothing. -/
theorem overlayNewer_of_no_newer [Inhabited V] {c : Cache V} {blockNo minEpoch : Nat} {dst : List V}
    (h : ∀ x ∈ c.buffers, canOverlay blockNo dst.length x = true → x.dirtyEpoch ≤ minEpoch) :
    overlayNewer c blockNo minEpoch dst = dst :=
  overlayLoop_of_none _ dst (oldestAfter_eq_none.mpr h)

/-- `dirty_filter_matches` for the filter of the device: a dirty buffer with no
journal hold. -/
def BufHead.dirtyMatches (b : BufHead V) : Bool := b.dirty && b.journalPending == 0

/-- `dirty_filter_matches` for a range filter: a dirty buffer with no journal hold
that shares a block with the range. -/
def dirtyFilterMatches (blockNo count : Nat) (b : BufHead V) : Bool :=
  b.dirtyMatches && b.overlaps blockNo count

/-- `copy_dirty_bdev_range_locked` from epoch `0`: overlay every dirty buffer the
filter admits, oldest first. -/
def copyDirtyRange [Inhabited V] (c : Cache V) (blockNo : Nat) (dst : List V) : List V :=
  overlayLoop c.buffers (dirtyFilterMatches blockNo dst.length) blockNo c.buffers.length 0 dst

/-- `make_writeback_snapshot_for_epoch`: the buffer's bytes with every newer cached
alias overlaid. -/
def snapshot [Inhabited V] (c : Cache V) (b : BufHead V) (epoch : Nat) : List V :=
  overlayNewer c b.blockNo epoch b.data

/-- The device after `data` is written from block `blockNo` on. -/
def writeBlocks (disk : Nat → V) (blockNo : Nat) (data : List V) : Nat → V :=
  fun n => if blockNo ≤ n ∧ n < blockNo + data.length then data.getD (n - blockNo) (disk n) else disk n

/-! ## Buffer operations -/

/-- `bget`, `bget_multi`: a cached buffer of exactly this range gains a reference;
otherwise a new valid buffer is inserted without a read, holding `fill`.  Returns the
buffer's identity. -/
def Cache.bget (c : Cache V) (fill : V) (blockNo count : Nat) : Cache V × Nat :=
  match c.buffers.find? (fun b => b.blockNo == blockNo && b.count == count) with
  | some b => (c.modify b.id fun b => { b with refcount := b.refcount + 1 }, b.id)
  | none =>
    ({ c with
        buffers := c.buffers ++ [⟨c.nextId, blockNo, List.replicate count fill, true, false, false, 1, 0, 0⟩]
        nextId := c.nextId + 1 }, c.nextId)

/-- `bread` of one block: a hit gains a reference and has every newer cached alias
overlaid into it; a miss reads the device and overlays the dirty buffers over the
block (the fallback path of the code: the copies from complete cached or dirty
coverage are not modelled). -/
def Cache.bread [Inhabited V] (c : Cache V) (blockNo : Nat) : Cache V × Nat :=
  match c.buffers.find? (fun b => b.blockNo == blockNo && b.count == 1) with
  | some b =>
    (c.modify b.id fun b => { b with refcount := b.refcount + 1, data := overlayNewer c blockNo b.dirtyEpoch b.data },
      b.id)
  | none =>
    ({ c with
        buffers := c.buffers ++ [⟨c.nextId, blockNo, copyDirtyRange c blockNo [c.disk blockNo], true, false, false,
          1, 0, 0⟩]
        nextId := c.nextId + 1 }, c.nextId)

/-- The caller overwrites the bytes of a buffer it holds. -/
def Cache.overwrite (c : Cache V) (id : Nat) (data : List V) : Cache V :=
  c.modify id fun b => { b with data := data }

/-- `discard_clean_overlapping_aliases_locked` for `src`: clean, idle, unreferenced
aliases that share a block with it leave the cache. -/
def discardCleanAliases (src : BufHead V) (bufs : List (BufHead V)) : List (BufHead V) :=
  bufs.filter fun b =>
    !(b.id != src.id && !b.dirty && !b.writeback && b.refcount == 0 && b.overlaps src.blockNo src.count)

/-- `mark_buffer_dirty_locked`: a fresh dirty epoch, clean overlapping aliases
discarded, the buffer dirty. -/
def Cache.markDirty (c : Cache V) (id : Nat) : Cache V :=
  match c.get? id with
  | none => c
  | some b =>
    let b' := { b with dirtyEpoch := c.nextDirtyEpoch, dirty := true }
    { c with
      buffers := discardCleanAliases b' (c.buffers.map fun x => if x.id == id then b' else x)
      nextDirtyEpoch := c.nextDirtyEpoch + 1 }

/-- `has_overlapping_journal_pending_locked`. -/
def Cache.journalBlocked (c : Cache V) (b : BufHead V) : Bool :=
  c.buffers.any fun x => x.journalPending != 0 && x.overlaps b.blockNo b.count

/-- `write_buffer_snapshot_for_epoch` after the write of the snapshot reported `ok`:
on success the buffer is clean unless it was dirtied again meanwhile. -/
def Cache.finishWrite (c : Cache V) (id epoch : Nat) (ok : Bool) : Cache V :=
  c.modify id fun b => if ok && b.dirty && b.dirtyEpoch == epoch then { b with dirty := false } else b

/-- `bwrite`: dirty the buffer; unless a journal hold overlaps it (`-EBUSY`), write
its snapshot.  Returns whether the write was attempted and succeeded. -/
def Cache.bwrite [Inhabited V] (c : Cache V) (id : Nat) (ok : Bool) : Cache V × Bool :=
  let c₁ := c.markDirty id
  match c₁.get? id with
  | none => (c₁, false)
  | some b =>
    if c₁.journalBlocked b then (c₁, false)
    else
      let c₂ := if ok then { c₁ with disk := writeBlocks c₁.disk b.blockNo (snapshot c₁ b b.dirtyEpoch) } else c₁
      (c₂.finishWrite id b.dirtyEpoch ok, ok)

/-- `brelse`: drop a reference. -/
def Cache.brelse (c : Cache V) (id : Nat) : Cache V :=
  c.modify id fun b => { b with refcount := b.refcount - 1 }

/-- `bjournal_hold`, `bjournal_release`. -/
def Cache.journalHold (c : Cache V) (id : Nat) : Cache V :=
  c.modify id fun b => { b with journalPending := b.journalPending + 1 }

def Cache.journalRelease (c : Cache V) (id : Nat) : Cache V :=
  c.modify id fun b => { b with journalPending := b.journalPending - 1 }

/-- `is_reclaimable_clean_buffer`: unreferenced, not dirty, not under writeback. -/
def BufHead.reclaimable (b : BufHead V) : Bool := b.refcount == 0 && !b.dirty && !b.writeback

/-- The LRU reclaim (`reclaim_clean_cache_locked`, `evict_lru_for_allocation`) freeing
buffer `id`, if it is reclaimable; which one the LRU picks is left open. -/
def Cache.reclaim (c : Cache V) (id : Nat) : Option (Cache V) :=
  match c.get? id with
  | some b => if b.reclaimable then some { c with buffers := c.buffers.filter (·.id != id) } else none
  | none => none

/-! ## Dirty writeback -/

/-- `has_older_overlapping_dirty_buffer_locked`. -/
def Cache.hasOlderDirtyAlias (c : Cache V) (b : BufHead V) : Bool :=
  c.buffers.any fun x => x.dirty && x.overlaps b.blockNo b.count && x.dirtyEpoch < b.dirtyEpoch

/-- `find_writeback_candidate_locked`: the oldest buffer the device's filter admits
(dirty, no journal hold) with an epoch in `(minEpoch, maxEpoch]` and no older
overlapping dirty alias; buffers that have one are passed over.  Each pass raises
the bound past one buffer, so `fuel = buffers.length` suffices. -/
def Cache.findCandidate (c : Cache V) (maxEpoch : Nat) : Nat → Nat → Option (BufHead V)
  | 0, _ => none
  | fuel + 1, minEpoch =>
    match oldestAfter (fun b => b.dirtyMatches && b.dirtyEpoch ≤ maxEpoch) minEpoch c.buffers with
    | none => none
    | some b => if c.hasOlderDirtyAlias b then c.findCandidate maxEpoch fuel b.dirtyEpoch else some b

/-- `dirty_writeback_run_can_append_locked` for the first buffer of a run. -/
def Cache.canStartRun (c : Cache V) (minEpoch maxEpoch : Nat) (b : BufHead V) : Bool :=
  b.dirtyMatches && minEpoch < b.dirtyEpoch && b.dirtyEpoch ≤ maxEpoch && !b.writeback &&
    !c.journalBlocked b && !c.hasOlderDirtyAlias b && b.count != 0

/-- `find_next_contiguous_dirty_buffer_locked` with the append check: the oldest
buffer the filter admits in the epoch window that starts at block `next`, if it may
join the run. -/
def Cache.nextContiguous (c : Cache V) (minEpoch maxEpoch next : Nat) : Option (BufHead V) :=
  match oldestAfter (fun b => b.dirtyMatches && b.dirtyEpoch ≤ maxEpoch && b.blockNo == next) minEpoch c.buffers with
  | some b => if c.canStartRun minEpoch maxEpoch b then some b else none
  | none => none

/-- The append loop of `collect_dirty_writeback_run_locked`: contiguous buffers join
the run while one starts where the run ends.  Each joins past the run's end, so
`fuel = buffers.length` suffices.  The run's size limits are not modelled. -/
def Cache.extendRun (c : Cache V) (minEpoch maxEpoch : Nat) : Nat → Nat → List (BufHead V)
  | 0, _ => []
  | fuel + 1, next =>
    match c.nextContiguous minEpoch maxEpoch next with
    | some b => b :: c.extendRun minEpoch maxEpoch fuel (next + b.count)
    | none => []

/-- The run's snapshot written to the device (`make_writeback_run_snapshot`): each
buffer's bytes with its newer aliases overlaid, at its own blocks. -/
def Cache.writeRun [Inhabited V] (c : Cache V) (run : List (BufHead V)) : Nat → V :=
  run.foldl (fun disk b => writeBlocks disk b.blockNo (snapshot c b b.dirtyEpoch)) c.disk

/-- What one writeback call reports (`DirtyWritebackResult`). -/
structure WritebackResult where
  wrote : Bool
  busy : Bool
  ok : Bool
  dirtyEpoch : Nat
deriving DecidableEq, Repr

/-- `writeback_dirty_one_after`: collect a run from the candidate, write its snapshot
(the write reports `ok`), and clean each buffer not dirtied again.  No candidate, or
a candidate that cannot start a run: nothing written and not busy. -/
def Cache.writebackDirtyOneAfter [Inhabited V] (c : Cache V) (minEpoch maxEpoch : Nat) (ok : Bool) :
    Cache V × WritebackResult :=
  match c.findCandidate maxEpoch c.buffers.length minEpoch with
  | none => (c, ⟨false, false, true, 0⟩)
  | some b =>
    if b.writeback then (c, ⟨false, true, true, 0⟩)
    else if !c.canStartRun minEpoch maxEpoch b then (c, ⟨false, false, true, 0⟩)
    else
      let run := b :: c.extendRun minEpoch maxEpoch c.buffers.length (b.blockNo + b.count)
      let c₁ := if ok then { c with disk := c.writeRun run } else c
      let c₂ := run.foldl (fun c' x => c'.finishWrite x.id x.dirtyEpoch ok) c₁
      -- a failed run reports its newest epoch, a written one its first
      (c₂, ⟨true, false, ok, if ok then b.dirtyEpoch else run.foldl (fun m x => max m x.dirtyEpoch) 0⟩)

/-- `max_matching_dirty_epoch` for the whole device. -/
def Cache.maxDirtyEpoch (c : Cache V) : Nat :=
  c.buffers.foldl (fun m b => if b.dirty then max m b.dirtyEpoch else m) 0

/-- The loop of `sync_blockdev`: write back after `minEpoch` until a call writes
nothing; `oks` gives each write's outcome.  In this sequential model no buffer is
under writeback, so the busy branch never runs.  Returns the cache and the first
failure, if any. -/
def Cache.syncLoop [Inhabited V] (maxEpoch : Nat) : Nat → Cache V → Nat → List Bool → Cache V × Bool
  | 0, c, _, _ => (c, true)
  | fuel + 1, c, minEpoch, oks =>
    let r := c.writebackDirtyOneAfter minEpoch maxEpoch (oks.headD true)
    if r.2.wrote then
      let rest := Cache.syncLoop maxEpoch fuel r.1 r.2.dirtyEpoch oks.tail
      (rest.1, r.2.ok && rest.2)
    else (r.1, true)

/-- `sync_blockdev`: `true` is the return value `0`. -/
def Cache.syncBlockdev [Inhabited V] (c : Cache V) (oks : List Bool) : Cache V × Bool :=
  Cache.syncLoop c.maxDirtyEpoch (c.buffers.length + 1) c 0 oks

/-- **A journal-blocked first candidate ends `sync_blockdev`.**  When the oldest
candidate is not under writeback but a journal hold overlaps it, the first call
writes nothing and is not busy, so the loop stops: `sync_blockdev` returns `0` and
leaves every buffer as it was, whatever other dirty buffers the cache holds. -/
theorem syncBlockdev_of_blocked_candidate [Inhabited V] {c : Cache V} {b : BufHead V} (oks : List Bool)
    (hcand : c.findCandidate c.maxDirtyEpoch c.buffers.length 0 = some b)
    (hwb : b.writeback = false) (hblocked : c.journalBlocked b = true) :
    c.syncBlockdev oks = (c, true) := by
  have hstart : c.canStartRun 0 c.maxDirtyEpoch b = false := by
    simp [Cache.canStartRun, hblocked]
  have hone : c.writebackDirtyOneAfter 0 c.maxDirtyEpoch (oks.headD true) = (c, ⟨false, false, true, 0⟩) := by
    simp [Cache.writebackDirtyOneAfter, hcand, hwb, hstart]
  simp only [Cache.syncBlockdev, Cache.syncLoop, hone, Bool.false_eq_true, if_false]

/-! ## Runs of operations -/

/-- What a caller of the cache can do. -/
inductive Op (V : Type) where
  | bget (fill : V) (blockNo count : Nat)
  | bread (blockNo : Nat)
  | overwrite (id : Nat) (data : List V)
  | bdirty (id : Nat)
  | bwrite (id : Nat) (ok : Bool)
  | brelse (id : Nat)
  | journalHold (id : Nat)
  | journalRelease (id : Nat)
  | reclaim (id : Nat)
  | writebackDirtyOne (ok : Bool)
  | syncBlockdev (oks : List Bool)

/-- The cache, and the logical disk `M`: the initial device, updated at each
`bdirty` and `bwrite` of a buffer with its bytes over the blocks it covers.
`lastRead` is what the last `bread` returned, `lastSync` the status of the last
`sync_blockdev` (`true` for `0`). -/
structure World (V : Type) where
  cache : Cache V
  logical : Nat → V
  lastRead : List V
  lastSync : Bool

/-- The logical disk after buffer `id` is dirtied or written. -/
def World.record (w : World V) (id : Nat) : Nat → V :=
  match w.cache.get? id with
  | some b => writeBlocks w.logical b.blockNo b.data
  | none => w.logical

/-- One operation; `none` when it names no cached buffer or reclaims one that is not
reclaimable. -/
def World.step [Inhabited V] (w : World V) : Op V → Option (World V)
  | .bget fill blockNo count => some { w with cache := (w.cache.bget fill blockNo count).1 }
  | .bread blockNo =>
    let r := w.cache.bread blockNo
    some { w with cache := r.1, lastRead := ((r.1.get? r.2).map (·.data)).getD [] }
  | .overwrite id data => some { w with cache := w.cache.overwrite id data }
  | .bdirty id => some { w with cache := w.cache.markDirty id, logical := w.record id }
  | .bwrite id ok => some { w with cache := (w.cache.bwrite id ok).1, logical := w.record id }
  | .brelse id => some { w with cache := w.cache.brelse id }
  | .journalHold id => some { w with cache := w.cache.journalHold id }
  | .journalRelease id => some { w with cache := w.cache.journalRelease id }
  | .reclaim id => (w.cache.reclaim id).map fun c => { w with cache := c }
  | .writebackDirtyOne ok => some { w with cache := (w.cache.writebackDirtyOneAfter 0 w.cache.nextDirtyEpoch ok).1 }
  | .syncBlockdev oks =>
    let r := w.cache.syncBlockdev oks
    some { w with cache := r.1, lastSync := r.2 }

/-- A run of operations. -/
def World.run [Inhabited V] : World V → List (Op V) → Option (World V)
  | w, [] => some w
  | w, op :: ops => (w.step op).bind (·.run ops)

/-- An empty cache over the device `disk`. -/
def World.init (disk : Nat → V) : World V := ⟨⟨[], disk, 1, 0⟩, disk, [], true⟩

/-- **A reclaimed newer alias loses its write.**  Buffer `0` caches block `0` and is
dirtied with `7`; buffer `1` caches blocks `0, 1` and is written with `8, 9`, so the
logical block `0` is `8`.  Buffer `1`, now clean and released, is reclaimed.  The
writeback of buffer `0` finds no newer alias to overlay and puts `7` on block `0`,
and `bread` of block `0` returns `7`. -/
theorem reclaimed_newer_alias_loses_write :
    ∃ w, (World.init fun _ => (0 : Nat)).run
        [.bget 0 0 1, .overwrite 0 [7], .bdirty 0, .bget 0 0 2, .overwrite 1 [8, 9], .bwrite 1 true,
         .brelse 1, .reclaim 1, .writebackDirtyOne true, .bread 0] = some w ∧
      w.logical 0 = 8 ∧ w.cache.disk 0 = 7 ∧ w.lastRead = [7] :=
  ⟨_, rfl, rfl, rfl, rfl⟩

/-- **`sync_blockdev` stops at a journal hold.**  Buffer `0` (block `0`) is held,
clean, by the journal.  Buffer `1` (blocks `0, 1`) is dirtied; buffer `0` is
referenced, so it is not discarded as a clean alias.  Buffer `2` (block `5`, no
overlap with either) is dirtied after it.  The candidate search passes over
journal-held buffers, but buffer `1` holds none itself: it is the oldest candidate,
cannot start a run because buffer `0` overlaps it, and ends the loop.
`sync_blockdev` returns `0` with buffer `2` still dirty and block `5` never
written. -/
theorem sync_blockdev_stops_at_journal_hold :
    ∃ w, (World.init fun _ => (0 : Nat)).run
        [.bget 0 0 1, .journalHold 0, .bget 0 0 2, .overwrite 1 [1, 1], .bdirty 1, .bget 0 5 1,
         .overwrite 2 [2], .bdirty 2, .syncBlockdev [true]] = some w ∧
      w.lastSync = true ∧ (w.cache.get? 2).map (·.dirty) = some true ∧
        (w.cache.get? 2).map (·.journalPending) = some 0 ∧ w.cache.disk 5 = 0 :=
  ⟨_, rfl, rfl, rfl, rfl, rfl⟩

end Wos.BufferCache
