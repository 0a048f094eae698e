import Mathlib

/-! # The block-ring server of a WKI device binding

A consumer node reaches a remote block device through a zone of shared memory: a
64-byte header (`BlkRingHeader`), a submission queue of 24-byte entries, a
completion queue of 16-byte entries, and `data_slot_count` data slots of
`data_slot_size` bytes.  `blk_ring_server_poll` consumes submissions from
`sq_tail` to the consumer's `sq_head`, performs each against the device, and posts
a completion at `cq_head`.

The model records every memory access of one poll (`Access`): bytes of the zone,
bytes of a staging buffer, and every `%` with its divisor.  The server validates
only `data_slot < data_slot_count`; the number of bytes a transfer moves is
`block_count` blocks of the device, which the consumer chooses.

* With the layout fields as the server wrote them and every submission asking for
  at most one slot's worth of blocks, every access of the poll is in bounds
  (`blkRingServerPoll_safe_of_bounded`).
* Without the second condition a read into the last slot runs past the zone, and a
  bulk read whose 32-bit size wraps to 512 fills a 512-byte staging buffer with
  4 GiB and 512 bytes (`blk_ring_transfer_exceeds_buffers`).  A size that wraps to
  zero gets no buffer from kmalloc and the submission completes with `-ENOMEM`.

Concurrent writes of the consumer during a poll, the RoCE completion pushes after
the loop and driver I/O errors are not modelled; a staging allocation fails only for
a zero size.
-/

namespace Wos.BlkRing

/-! ## Layout -/

def blkRingDefaultSqDepth : UInt32 := 64
def blkRingDefaultCqDepth : UInt32 := 64
def blkRingDefaultDataSlots : UInt32 := 64
def blkRingDefaultDataSlotSize : UInt32 := 65536
def blkRingHeaderSize : UInt32 := 64
/-- `sizeof(BlkSqEntry)`. -/
def blkSqEntrySize : UInt32 := 24
/-- `sizeof(BlkCqEntry)`. -/
def blkCqEntrySize : UInt32 := 16

def blkRingSqOffset : UInt32 := blkRingHeaderSize
def blkRingSqSize (depth : UInt32) : UInt32 := depth * blkSqEntrySize
def blkRingCqOffset (sqDepth : UInt32) : UInt32 := blkRingSqOffset + blkRingSqSize sqDepth
def blkRingCqSize (depth : UInt32) : UInt32 := depth * blkCqEntrySize
def blkRingDataOffset (sqDepth cqDepth : UInt32) : UInt32 := blkRingCqOffset sqDepth + blkRingCqSize cqDepth
def blkRingDataSize (slotCount slotSize : UInt32) : UInt32 := slotCount * slotSize

/-- `blk_ring_zone_size`: the layout rounded up to 4 KiB pages. -/
def blkRingZoneSize (sqDepth cqDepth slotCount slotSize : UInt32) : UInt32 :=
  (blkRingDataOffset sqDepth cqDepth + blkRingDataSize slotCount slotSize + 0xFFF) &&& ~~~0xFFF

/-- `blk_ring_default_zone_size`, the size of the zone the server creates. -/
def blkRingDefaultZoneSize : Nat :=
  (blkRingZoneSize blkRingDefaultSqDepth blkRingDefaultCqDepth blkRingDefaultDataSlots
    blkRingDefaultDataSlotSize).toNat

/-- The default layout: 64 + 64·24 + 64·16 bytes of rings, 4 MiB of slots, in a
zone of 4198400 bytes. -/
theorem blkRingDefaultZoneSize_eq : blkRingDefaultZoneSize = 4198400 := by decide

/-! ## Entries and the device -/

inductive BlkOpcode where
  | read | write | flush | bulkRead | bulkWrite
deriving DecidableEq, Repr

/-- The opcode a submission's byte names, if any. -/
def BlkOpcode.ofByte? : UInt8 → Option BlkOpcode
  | 0 => some .read
  | 1 => some .write
  | 2 => some .flush
  | 3 => some .bulkRead
  | 4 => some .bulkWrite
  | _ => none

/-- The header fields the server reads; all of them lie in consumer-writable memory. -/
structure BlkRingHeader where
  sqHead : UInt32
  sqTail : UInt32
  cqHead : UInt32
  cqTail : UInt32
  sqDepth : UInt32
  cqDepth : UInt32
  dataSlotCount : UInt32
  dataSlotSize : UInt32
  blockSize : UInt32
  totalBlocks : UInt64
  serverReady : UInt8
deriving DecidableEq, Repr

structure BlkSqEntry where
  tag : UInt32
  opcode : UInt8
  lba : UInt64
  blockCount : UInt32
  dataSlot : UInt32
deriving DecidableEq, Repr

structure BlkCqEntry where
  tag : UInt32
  status : Int
  dataSlot : UInt32
  bytesTransferred : UInt32
deriving DecidableEq, Repr

/-- The errno values the server returns negated. -/
def einval : Int := 22
def erofs : Int := 30
def enomem : Int := 12

/-- The block device: its block size, its size in blocks, whether it refuses writes. -/
structure BlockDev where
  blockSize : Nat
  totalBlocks : Nat
  readOnly : Bool

/-- `block_read` of `count` blocks at `lba`: its status and the bytes it moves into
the buffer.  The driver itself is taken to succeed. -/
def blockRead (dev : BlockDev) (lba : UInt64) (count : UInt32) : Int × Nat :=
  if lba.toNat > dev.totalBlocks ∨ count.toNat > dev.totalBlocks - lba.toNat then (-einval, 0)
  else if count = 0 then (0, 0)
  else if dev.blockSize = 0 then (-einval, 0)
  else (0, count.toNat * dev.blockSize)

/-- `block_write`: a read-only device refuses, otherwise as `block_read`, moving the
bytes out of the buffer. -/
def blockWrite (dev : BlockDev) (lba : UInt64) (count : UInt32) : Int × Nat :=
  if dev.readOnly then (-erofs, 0) else blockRead dev lba count

/-- What the poll sees of its `DevServerBinding`. -/
structure Binding where
  dev : BlockDev
  /-- `block_read_only`. -/
  readOnly : Bool
  /-- `blk_roce`. -/
  roce : Bool
  /-- `blk_rdma_transport != nullptr`. -/
  transport : Bool

/-! ## Accesses -/

/-- One memory access of the server. -/
inductive Access where
  /-- `len` bytes at offset `off` of the zone. -/
  | zone (off len : Nat)
  /-- `len` bytes of a staging buffer allocated with `size` bytes. -/
  | staging (size len : Nat)
  /-- A `%` by `divisor`. -/
  | modulo (divisor : Nat)
deriving DecidableEq, Repr

/-- The access stays inside a zone of `zoneSize` bytes, inside its staging buffer,
or divides by a non-zero number. -/
def Access.Safe (zoneSize : Nat) : Access → Prop
  | .zone off len => off + len ≤ zoneSize
  | .staging size len => len ≤ size
  | .modulo divisor => divisor ≠ 0

instance (zoneSize : Nat) : DecidablePred (Access.Safe zoneSize) := fun a => by
  cases a <;> unfold Access.Safe <;> infer_instance

/-- `new (std::nothrow) uint8_t[size]` gives no staging buffer: kmalloc's `malloc_impl` returns
`nullptr` for a zero size.  Running out of memory is not modelled. -/
def stagingNull (size : UInt32) : Bool := size == 0

/-- `blk_data_slot`: the zone offset of slot `slot` under the header's layout.  The
offset of the data region is 32-bit; the slot's offset within it is 64-bit. -/
def dataSlotOffset (hdr : BlkRingHeader) (slot : UInt32) : Nat :=
  (blkRingDataOffset hdr.sqDepth hdr.cqDepth).toNat + slot.toNat * hdr.dataSlotSize.toNat

/-- The `switch` of `blk_ring_server_poll` on one submission: the completion and the
accesses of the device transfer, the RDMA pulls and the staging buffers. -/
def handleEntry (b : Binding) (hdr : BlkRingHeader) (sqe : BlkSqEntry) : BlkCqEntry × List Access :=
  let cqe : BlkCqEntry := ⟨sqe.tag, 0, sqe.dataSlot, 0⟩
  let slot := dataSlotOffset hdr sqe.dataSlot
  -- the byte count is a 32-bit product of two consumer-visible values
  let total := sqe.blockCount * hdr.blockSize
  match BlkOpcode.ofByte? sqe.opcode with
  | some .read =>
    if sqe.dataSlot ≥ hdr.dataSlotCount then ({ cqe with status := -1 }, [])
    else
      let r := blockRead b.dev sqe.lba sqe.blockCount
      ({ cqe with status := r.1, bytesTransferred := if r.1 = 0 then total else 0 }, [.zone slot r.2])
  | some .write =>
    if sqe.dataSlot ≥ hdr.dataSlotCount then ({ cqe with status := -1 }, [])
    else if b.readOnly then ({ cqe with status := -erofs }, [])
    else
      let pull := if b.roce ∧ b.transport then [Access.zone slot total.toNat] else []
      let r := blockWrite b.dev sqe.lba sqe.blockCount
      ({ cqe with status := r.1 }, pull ++ [.zone slot r.2])
  | some .flush => (cqe, [])
  | some .bulkRead =>
    if stagingNull total then ({ cqe with status := -enomem }, [])
    else
      let r := blockRead b.dev sqe.lba sqe.blockCount
      let push := if r.1 = 0 ∧ b.transport then [Access.staging total.toNat total.toNat] else []
      ({ cqe with status := r.1, bytesTransferred := if r.1 = 0 ∧ b.transport then total else 0 },
        .staging total.toNat r.2 :: push)
  | some .bulkWrite =>
    if b.readOnly then ({ cqe with status := -erofs }, [])
    else if stagingNull total then ({ cqe with status := -enomem }, [])
    else if b.transport then
      let r := blockWrite b.dev sqe.lba sqe.blockCount
      ({ cqe with status := r.1 }, [.staging total.toNat total.toNat, .staging total.toNat r.2])
    else ({ cqe with status := -1 }, [])
  | none => ({ cqe with status := -1 }, [])

/-! ## The poll loop -/

/-- The header as the poll leaves it, its accesses and its completions. -/
structure PollState where
  hdr : BlkRingHeader
  accesses : List Access
  completions : List BlkCqEntry

/-- The accesses of one pass around a submission at `sqIdx` posted at `cqIdx`: the
full-queue test, the two index computations, the submission read, the entry's own
accesses, the tail update, the completion write and the head update. -/
def passAccesses (hdr : BlkRingHeader) (sqIdx cqIdx : UInt32) (entry : List Access) : List Access :=
  [.modulo hdr.cqDepth.toNat, .modulo hdr.sqDepth.toNat,
    .zone (blkRingSqOffset.toNat + sqIdx.toNat * blkSqEntrySize.toNat) blkSqEntrySize.toNat] ++ entry ++
  [.modulo hdr.sqDepth.toNat, .modulo hdr.cqDepth.toNat,
    .zone ((blkRingCqOffset hdr.sqDepth).toNat + cqIdx.toNat * blkCqEntrySize.toNat) blkCqEntrySize.toNat,
    .modulo hdr.cqDepth.toNat]

/-- The `while (!blk_sq_empty(hdr))` loop for at most `fuel` passes; `sq i` is the
submission the consumer left at index `i`.  The loop of the code need not end (a
consumer index outside the ring is never reached), so results are stated for
every `fuel`. -/
def pollLoop (b : Binding) (sq : Nat → BlkSqEntry) : Nat → PollState → PollState
  | 0, st => st
  | fuel + 1, st =>
    let hdr := st.hdr
    if hdr.sqHead = hdr.sqTail then st
    else if (hdr.cqHead + 1) % hdr.cqDepth = hdr.cqTail then
      { st with accesses := st.accesses ++ [.modulo hdr.cqDepth.toNat] }
    else
      let sqIdx := hdr.sqTail % hdr.sqDepth
      let cqIdx := hdr.cqHead % hdr.cqDepth
      let r := handleEntry b hdr (sq sqIdx.toNat)
      pollLoop b sq fuel
        { hdr := { hdr with sqTail := (hdr.sqTail + 1) % hdr.sqDepth, cqHead := (hdr.cqHead + 1) % hdr.cqDepth }
          accesses := st.accesses ++ passAccesses hdr sqIdx cqIdx r.2
          completions := st.completions ++ [r.1] }

/-- `blk_ring_server_poll` of an active binding, for `fuel` passes. -/
def blkRingServerPoll (b : Binding) (sq : Nat → BlkSqEntry) (fuel : Nat) (hdr : BlkRingHeader) : PollState :=
  if hdr.serverReady = 0 then ⟨hdr, [], []⟩ else pollLoop b sq fuel ⟨hdr, [], []⟩

/-- The header the server writes at zone initialisation. -/
def initHeader (dev : BlockDev) : BlkRingHeader :=
  ⟨0, 0, 0, 0, blkRingDefaultSqDepth, blkRingDefaultCqDepth, blkRingDefaultDataSlots, blkRingDefaultDataSlotSize,
    UInt32.ofNat dev.blockSize, UInt64.ofNat dev.totalBlocks, 1⟩

/-! ## Bounds -/

/-- The layout fields still hold what `initHeader` wrote for the device `dev`: the
consumer has written only its own indices. -/
structure LayoutIntact (dev : BlockDev) (hdr : BlkRingHeader) : Prop where
  sqDepth : hdr.sqDepth = blkRingDefaultSqDepth
  cqDepth : hdr.cqDepth = blkRingDefaultCqDepth
  dataSlotCount : hdr.dataSlotCount = blkRingDefaultDataSlots
  dataSlotSize : hdr.dataSlotSize = blkRingDefaultDataSlotSize
  blockSize : hdr.blockSize.toNat = dev.blockSize

/-- A submission asks for at most one data slot's worth of bytes. -/
def BlkSqEntry.Bounded (dev : BlockDev) (sqe : BlkSqEntry) : Prop :=
  sqe.blockCount.toNat * dev.blockSize ≤ blkRingDefaultDataSlotSize.toNat

theorem blockRead_moved_le (dev : BlockDev) (lba : UInt64) (count : UInt32) :
    (blockRead dev lba count).2 ≤ count.toNat * dev.blockSize := by
  unfold blockRead
  split_ifs <;> simp

theorem blockWrite_moved_le (dev : BlockDev) (lba : UInt64) (count : UInt32) :
    (blockWrite dev lba count).2 ≤ count.toNat * dev.blockSize := by
  unfold blockWrite
  split_ifs
  · exact Nat.zero_le _
  · exact blockRead_moved_le dev lba count

section Bounded

variable {dev : BlockDev} {hdr : BlkRingHeader} {sqe : BlkSqEntry}

/-- A bounded submission's 32-bit byte count does not wrap. -/
theorem total_toNat (hl : LayoutIntact dev hdr) (hb : sqe.Bounded dev) :
    (sqe.blockCount * hdr.blockSize).toNat = sqe.blockCount.toNat * dev.blockSize := by
  unfold BlkSqEntry.Bounded blkRingDefaultDataSlotSize at hb
  rw [UInt32.toNat_mul, hl.blockSize]
  exact Nat.mod_eq_of_lt (by simp at hb; omega)

/-- Up to one slot's worth of bytes from a valid slot stays inside the zone. -/
theorem zone_slot_safe (hl : LayoutIntact dev hdr) (hslot : ¬sqe.dataSlot ≥ hdr.dataSlotCount) {len : Nat}
    (hlen : len ≤ sqe.blockCount.toNat * dev.blockSize) (hb : sqe.Bounded dev) :
    (Access.zone (dataSlotOffset hdr sqe.dataSlot) len).Safe blkRingDefaultZoneSize := by
  have hlt : sqe.dataSlot.toNat < 64 := by
    rw [hl.dataSlotCount, ge_iff_le, UInt32.le_iff_toNat_le, not_le] at hslot
    exact hslot
  have hoff : dataSlotOffset hdr sqe.dataSlot = 2624 + sqe.dataSlot.toNat * 65536 := by
    rw [dataSlotOffset, hl.sqDepth, hl.cqDepth, hl.dataSlotSize]
    rfl
  have hone : sqe.blockCount.toNat * dev.blockSize ≤ 65536 := hb
  simp only [Access.Safe, hoff, blkRingDefaultZoneSize_eq]
  omega

/-- Up to one slot's worth of bytes fits the staging buffer of a bounded submission. -/
theorem staging_safe (hl : LayoutIntact dev hdr) (hb : sqe.Bounded dev) {len : Nat}
    (hlen : len ≤ sqe.blockCount.toNat * dev.blockSize) :
    (Access.staging (sqe.blockCount * hdr.blockSize).toNat len).Safe blkRingDefaultZoneSize := by
  simp only [Access.Safe, total_toNat hl hb]
  exact hlen

end Bounded

/-- **A bounded submission is served inside the zone and its staging buffers.** -/
theorem handleEntry_safe (b : Binding) {hdr : BlkRingHeader} {sqe : BlkSqEntry} (hl : LayoutIntact b.dev hdr)
    (hb : sqe.Bounded b.dev) : ∀ a ∈ (handleEntry b hdr sqe).2, a.Safe blkRingDefaultZoneSize := by
  have hread := blockRead_moved_le b.dev sqe.lba sqe.blockCount
  have hwrite := blockWrite_moved_le b.dev sqe.lba sqe.blockCount
  have htotal : (sqe.blockCount * hdr.blockSize).toNat ≤ sqe.blockCount.toNat * b.dev.blockSize :=
    (total_toNat hl hb).le
  intro a ha
  unfold handleEntry at ha
  -- one case per opcode; every transfer moves at most `block_count` blocks
  rcases hop : BlkOpcode.ofByte? sqe.opcode with _ | _ | _ | _ | _ | _ <;>
    simp only [hop, apply_ite Prod.snd] at ha
  · simp at ha
  · split_ifs at ha with hslot
    · simp at ha
    · rw [List.mem_singleton] at ha
      subst ha
      exact zone_slot_safe hl hslot hread hb
  · split_ifs at ha with hslot hro hroce
    · simp at ha
    · simp at ha
    · simp only [List.mem_append, List.mem_singleton] at ha
      rcases ha with rfl | rfl
      · exact zone_slot_safe hl hslot htotal hb
      · exact zone_slot_safe hl hslot hwrite hb
    · simp only [List.nil_append, List.mem_singleton] at ha
      subst ha
      exact zone_slot_safe hl hslot hwrite hb
  · simp at ha
  · split_ifs at ha
    · simp at ha
    · simp only [List.mem_cons, List.not_mem_nil, or_false] at ha
      rcases ha with rfl | rfl
      · exact staging_safe hl hb hread
      · exact staging_safe hl hb htotal
    · rw [List.mem_singleton] at ha
      subst ha
      exact staging_safe hl hb hread
  · split_ifs at ha
    · simp at ha
    · simp at ha
    · simp only [List.mem_cons, List.not_mem_nil, or_false] at ha
      rcases ha with rfl | rfl
      · exact staging_safe hl hb htotal
      · exact staging_safe hl hb hwrite
    · simp at ha

section Bounded

variable {dev : BlockDev} {hdr : BlkRingHeader}

/-- The queue accesses of a pass around a bounded submission are in bounds. -/
theorem passAccesses_safe (hl : LayoutIntact dev hdr) {entry : List Access}
    (hentry : ∀ a ∈ entry, a.Safe blkRingDefaultZoneSize) :
    ∀ a ∈ passAccesses hdr (hdr.sqTail % hdr.sqDepth) (hdr.cqHead % hdr.cqDepth) entry,
      a.Safe blkRingDefaultZoneSize := by
  have hsq : (hdr.sqTail % hdr.sqDepth).toNat < 64 := by
    rw [hl.sqDepth, UInt32.toNat_mod]; exact Nat.mod_lt _ (by decide)
  have hcq : (hdr.cqHead % hdr.cqDepth).toNat < 64 := by
    rw [hl.cqDepth, UInt32.toNat_mod]; exact Nat.mod_lt _ (by decide)
  have hcqOff : (blkRingCqOffset hdr.sqDepth).toNat = 1600 := by rw [hl.sqDepth]; rfl
  intro a ha
  simp only [passAccesses, List.mem_append, List.mem_cons, List.not_mem_nil, or_false] at ha
  rcases ha with ((rfl | rfl | rfl) | ha) | rfl | rfl | rfl | rfl
  · rw [Access.Safe, hl.cqDepth]; decide
  · rw [Access.Safe, hl.sqDepth]; decide
  · simp only [Access.Safe, blkRingDefaultZoneSize_eq]
    change 64 + _ * 24 + 24 ≤ 4198400
    omega
  · exact hentry a ha
  · rw [Access.Safe, hl.sqDepth]; decide
  · rw [Access.Safe, hl.cqDepth]; decide
  · simp only [Access.Safe, blkRingDefaultZoneSize_eq, hcqOff]
    change 1600 + _ * 16 + 16 ≤ 4198400
    omega
  · rw [Access.Safe, hl.cqDepth]; decide

end Bounded

/-- The poll never touches the layout fields. -/
theorem pollLoop_layout {b : Binding} {sq : Nat → BlkSqEntry} {dev : BlockDev} (fuel : Nat) {st : PollState}
    (hl : LayoutIntact dev st.hdr) : LayoutIntact dev (pollLoop b sq fuel st).hdr := by
  induction fuel generalizing st with
  | zero => exact hl
  | succ fuel ih =>
    unfold pollLoop
    dsimp only
    split_ifs
    · exact hl
    · exact hl
    · exact ih ⟨hl.sqDepth, hl.cqDepth, hl.dataSlotCount, hl.dataSlotSize, hl.blockSize⟩

/-- Every pass of the loop adds only in-bounds accesses while the layout is intact
and the submissions are bounded. -/
theorem pollLoop_safe {b : Binding} {sq : Nat → BlkSqEntry} (hbounded : ∀ i < 64, (sq i).Bounded b.dev)
    (fuel : Nat) {st : PollState} (hl : LayoutIntact b.dev st.hdr)
    (hsafe : ∀ a ∈ st.accesses, a.Safe blkRingDefaultZoneSize) :
    ∀ a ∈ (pollLoop b sq fuel st).accesses, a.Safe blkRingDefaultZoneSize := by
  -- the invariant: layout intact and every access so far in bounds
  induction fuel generalizing st with
  | zero => exact hsafe
  | succ fuel ih =>
    unfold pollLoop
    dsimp only
    split_ifs
    · exact hsafe
    · intro a ha
      rcases List.mem_append.mp ha with ha | ha
      · exact hsafe a ha
      · rw [List.mem_singleton] at ha
        subst ha
        rw [hl.cqDepth]
        decide
    · have hidx : (st.hdr.sqTail % st.hdr.sqDepth).toNat < 64 := by
        rw [hl.sqDepth, UInt32.toNat_mod]; exact Nat.mod_lt _ (by decide)
      have hentry := handleEntry_safe b hl (hbounded _ hidx)
      refine ih ⟨hl.sqDepth, hl.cqDepth, hl.dataSlotCount, hl.dataSlotSize, hl.blockSize⟩ fun a ha => ?_
      rcases List.mem_append.mp ha with ha | ha
      · exact hsafe a ha
      · exact passAccesses_safe hl hentry a ha

/-- **A poll over an intact layout with bounded submissions stays in bounds**: every
SQ and CQ index is below the depth the server set, every `%` is by a non-zero depth,
and every transfer lies inside the zone or inside its staging buffer, whatever the
consumer's indices and opcodes, and for every number of passes. -/
theorem blkRingServerPoll_safe_of_bounded (b : Binding) (sq : Nat → BlkSqEntry) (fuel : Nat) {hdr : BlkRingHeader}
    (hl : LayoutIntact b.dev hdr) (hbounded : ∀ i < 64, (sq i).Bounded b.dev) :
    ∀ a ∈ (blkRingServerPoll b sq fuel hdr).accesses, a.Safe blkRingDefaultZoneSize := by
  unfold blkRingServerPoll
  split_ifs
  · simp
  · exact pollLoop_safe hbounded fuel hl (by simp)

/-- The consumer's two submissions: a READ of 256 blocks into slot 63, and a
BULK_READ of 2^23 + 1 blocks. -/
def oversizedSubmissions (i : Nat) : BlkSqEntry :=
  if i = 0 then ⟨1, 0, 0, 256, 63⟩ else ⟨2, 3, 0, 2 ^ 23 + 1, 0⟩

/-- **Transfers overflow the slot and the staging buffer.**  On the header the server
initialised for a device of 2^24 blocks of 512 bytes, the consumer posts
`oversizedSubmissions`.  The read moves 128 KiB from the start of the last 64 KiB
slot, past the end of the zone; the bulk read's 32-bit size `(2^23 + 1) * 512` wraps
to `512`, a 512-byte staging buffer is allocated, and 4 GiB and 512 bytes are read
into it. -/
theorem blk_ring_transfer_exceeds_buffers :
    ∃ st, blkRingServerPoll ⟨⟨512, 2 ^ 24, false⟩, false, false, true⟩ oversizedSubmissions 2
        { initHeader ⟨512, 2 ^ 24, false⟩ with sqHead := 2 } = st ∧
      Access.zone 4131392 131072 ∈ st.accesses ∧ ¬(Access.zone 4131392 131072).Safe blkRingDefaultZoneSize ∧
      Access.staging 512 (2 ^ 32 + 512) ∈ st.accesses ∧
        ¬(Access.staging 512 (2 ^ 32 + 512)).Safe blkRingDefaultZoneSize :=
  ⟨_, rfl, by decide⟩

end Wos.BlkRing
