import WosKernel.ByteCodec

/-! # The XFS log: record writes, head and tail discovery, recovery

The compact WOS log is a ring of `log_blocks` blocks from `log_start`.  A record is
a header block (`XlogRecHeader`, big-endian fields) followed by the body: for each
dirty buffer of the batch, its block number, the offset and length of the modified
region (native little-endian), then the bytes.  `xfs_log_write_record_locked` writes
the record at the head and moves the tail to the start of the record it wrote.

At mount, `xfs_log_find_head_tail` reads the header of log block `0` and the first
word of the last log block, and `xfs_log_recover` replays the records from the tail
while the position is before the head, in `(cycle, block)` order.

The device is a function from block numbers to the bytes of the block.  Reads and
writes of the device succeed; the write-back of the log range and the cache flush
that make a record durable (`LOG_DURABLE`) are the writes of
`xfsLogWriteRecordLocked` reaching the device.

The main result (`xfsLogMount_after_first_record`): after a clean unmount has cleared
the log, the first record written is never replayed.  The header at log block `0`
carries cycle `1`, the last log block still holds zeros, so head discovery puts the
head at cycle `0`, block `0`, before the tail, and the replay loop runs no iteration.
-/

namespace Wos.Xfs
open ByteCodec

/-- The errors of the log paths, as the negative `errno` values the code returns. -/
inductive Errno where
  | inval
  | nospc
  | overflow
deriving DecidableEq, Repr

/-- `XLOG_HEADER_MAGIC_NUM`. -/
def xlogHeaderMagicNum : UInt32 := 0xFEEDBABE

/-- `sizeof(XlogRecHeader)`. -/
def xlogRecHeaderSize : Nat := 1052

/-! ## The device and on-disk words -/

/-- The blocks of a device, by block number. -/
abbrev Disk := Nat → List UInt8

/-- The device after block `b` is written with `bytes`. -/
def Disk.write (d : Disk) (b : Nat) (bytes : List UInt8) : Disk := Function.update d b bytes

@[simp] theorem Disk.write_same (d : Disk) (b : Nat) (bytes : List UInt8) : d.write b bytes b = bytes := by
  simp [Disk.write]

@[simp] theorem Disk.write_ne {d : Disk} {b c : Nat} (bytes : List UInt8) (h : c ≠ b) :
    d.write b bytes c = d c := by
  simp [Disk.write, h]

/-- A big-endian 32-bit word at byte `off` (`Be32::to_cpu`). -/
def readBe32 (buf : List UInt8) (off : Nat) : UInt32 := UInt32.ofNat (decodeBE (slice buf off 4))

/-- A big-endian 64-bit word at byte `off` (`Be64::to_cpu`). -/
def readBe64 (buf : List UInt8) (off : Nat) : UInt64 := UInt64.ofNat (decodeBE (slice buf off 8))

/-- A native (little-endian) 32-bit word at byte `off`, as `memcpy` reads it. -/
def readLe32 (buf : List UInt8) (off : Nat) : UInt32 := UInt32.ofNat (decodeLE (slice buf off 4))

/-- A native (little-endian) 64-bit word at byte `off`. -/
def readLe64 (buf : List UInt8) (off : Nat) : UInt64 := UInt64.ofNat (decodeLE (slice buf off 8))

/-! ## The record header -/

/-- The fields of `XlogRecHeader` the log writes. -/
structure XlogRecHeader where
  magicno : UInt32
  cycle : UInt32
  version : UInt32
  len : UInt32
  lsn : UInt64
  tailLsn : UInt64
  crc : UInt32
  prevBlock : UInt32
  numLogops : UInt32
  fmt : UInt32
  fsUuid : List UInt8
  size : UInt32
deriving DecidableEq, Repr

/-- The packed on-disk image of the header: `h_magicno` at byte 0, `h_cycle` at 4,
`h_len` at 12, `h_tail_lsn` at 24, `h_crc` at 32, `h_num_logops` at 40.  The
writer never fills `h_cycle_data`, which stays zero. -/
def XlogRecHeader.bytes (h : XlogRecHeader) : List UInt8 :=
  encodeBE 4 h.magicno.toNat ++ (encodeBE 4 h.cycle.toNat ++ (encodeBE 4 h.version.toNat ++
    (encodeBE 4 h.len.toNat ++ (encodeBE 8 h.lsn.toNat ++ (encodeBE 8 h.tailLsn.toNat ++
    (encodeLE 4 h.crc.toNat ++ (encodeBE 4 h.prevBlock.toNat ++ (encodeBE 4 h.numLogops.toNat ++
    (List.replicate 984 0 ++ (encodeBE 4 h.fmt.toNat ++ ((h.fsUuid ++ List.replicate 16 0).take 16 ++
    encodeBE 4 h.size.toNat)))))))))))

/-- `xfs_log_write_header_bytes`: copy the header, truncated to the block, over the
buffer `dst`, then store the CRC32C of the copied bytes, taken with `h_crc` zero. -/
def xfsLogWriteHeaderBytes (crc32c : List UInt8 → UInt32) (hdr : XlogRecHeader) (dst : List UInt8)
    (blockSize : Nat) : Option (List UInt8) :=
  if blockSize = 0 then none
  else
    let writeLen := min xlogRecHeaderSize blockSize
    let dst₁ := overwrite (overwrite dst 0 (hdr.bytes.take writeLen)) 32 (encodeLE 4 0)
    some (overwrite dst₁ 32 (encodeLE 4 (crc32c (slice dst₁ 0 writeLen)).toNat))

/-! ## The record body -/

/-- The item types of a transaction. -/
inductive XfsLogItemType where
  | none
  | buffer
  | inode
deriving DecidableEq, Repr

/-- A logged buffer region: the buffer's block number and bytes (`bp->block_no`,
`bp->data`), and the part of it that was modified. -/
structure XfsTransBufItem where
  blockNo : UInt64
  data : List UInt8
  offset : UInt32
  len : UInt32
  dirty : Bool
deriving DecidableEq, Repr

/-- A transaction item; the buffer part is read only for buffer items. -/
structure XfsTransItem where
  type : XfsLogItemType
  buf : XfsTransBufItem
deriving DecidableEq, Repr

/-- The items the writer logs: dirty buffers. -/
def XfsTransItem.logged (it : XfsTransItem) : Bool := it.type == .buffer && it.buf.dirty

/-- One item of the body: block number (8 bytes), offset and length (4 bytes each),
then the modified bytes. -/
def XfsTransBufItem.record (b : XfsTransBufItem) : List UInt8 :=
  encodeLE 8 b.blockNo.toNat ++ encodeLE 4 b.offset.toNat ++ encodeLE 4 b.len.toNat ++
    slice b.data b.offset.toNat b.len.toNat

/-- `xfs_log_serialize_body` into a buffer of `capacity` bytes; `acc` is what is
serialized so far (`pos` is its length).  An item that does not fit fails
(`-EOVERFLOW`). -/
def xfsLogSerializeBody (capacity : Nat) : List XfsTransItem → List UInt8 → Option (List UInt8)
  | [], acc => some acc
  | it :: rest, acc =>
    if it.logged then
      if acc.length > capacity ∨ 16 + it.buf.len.toNat > capacity - acc.length then none
      else xfsLogSerializeBody capacity rest (acc ++ it.buf.record)
    else xfsLogSerializeBody capacity rest acc

/-- The body size the writer's first pass computes, in 32-bit arithmetic. -/
def bodySize (items : List XfsTransItem) : UInt32 :=
  items.foldl (fun acc it => if it.logged then acc + 8 + 4 + 4 + it.buf.len else acc) 0

/-- The number of log operations the writer's first pass counts. -/
def numLogops (items : List XfsTransItem) : UInt32 :=
  items.foldl (fun acc it => if it.logged then acc + 1 else acc) 0

/-! ## The log -/

/-- The fields of `XfsLog`. -/
structure XfsLog where
  logStart : UInt64
  logBlocks : UInt32
  headCycle : UInt32
  headBlock : UInt32
  tailCycle : UInt32
  tailBlock : UInt32
  clean : Bool
  active : Bool
deriving DecidableEq, Repr

/-- The device block of log block `b` (`log->log_start + b`). -/
def XfsLog.diskBlock (log : XfsLog) (b : UInt32) : Nat := log.logStart.toNat + b.toNat

/-- `xfs_log_advance_head`: the tail moves to the start of the record just written,
the head past it, into the next cycle when it wrapped. -/
def xfsLogAdvanceHead (log : XfsLog) (oldHead newHead : UInt32) : XfsLog :=
  { log with
    tailBlock := oldHead
    tailCycle := log.headCycle
    headBlock := newHead
    headCycle := if newHead < oldHead then log.headCycle + 1 else log.headCycle
    clean := false }

/-- The body loop of the writer: from log block `cur` on, each block receives the
next `blockSize` bytes of the body over its previous bytes.  The loop runs while
body bytes remain; each pass copies at least one, so `fuel = body.length`
suffices.  Returns the device and the block after the record. -/
def writeBodyBlocks (log : XfsLog) (blockSize : Nat) :
    Nat → List UInt8 → Disk → UInt32 → Disk × UInt32
  | 0, _, d, cur => (d, cur)
  | fuel + 1, body, d, cur =>
    if body.isEmpty then (d, cur)
    else
      let b := log.diskBlock cur
      writeBodyBlocks log blockSize fuel (body.drop blockSize)
        (d.write b (overwrite (d b) 0 (body.take blockSize))) ((cur + 1) % log.logBlocks)

/-- The record header the writer builds at head block `head`. -/
def recordHeader (uuid : List UInt8) (blockSize : UInt32) (log : XfsLog) (items : List XfsTransItem) :
    XlogRecHeader where
  magicno := xlogHeaderMagicNum
  cycle := log.headCycle
  version := 2
  len := bodySize items
  lsn := (log.headCycle.toUInt64 <<< 32) ||| log.headBlock.toUInt64
  tailLsn := (log.tailCycle.toUInt64 <<< 32) ||| log.tailBlock.toUInt64
  crc := 0
  prevBlock := 0
  numLogops := numLogops items
  fmt := 1
  fsUuid := uuid
  size := blockSize

/-- The free space of the writer (`avail`): the blocks from the head round to the
tail. -/
def logAvail (log : XfsLog) : UInt32 :=
  if log.headBlock ≥ log.tailBlock then log.logBlocks - log.headBlock + log.tailBlock
  else log.tailBlock - log.headBlock

/-- The data blocks of the record (`DATA_BLOCKS`): the body size rounded up to blocks,
in 32-bit arithmetic. -/
def recordDataBlocks (items : List XfsTransItem) (blockSize : UInt32) : UInt32 :=
  (bodySize items + blockSize - 1) / blockSize

/-- `xfs_log_write_record_locked`.  Nothing to log: nothing happens.  A record
larger than the log, or not smaller than the free space between head and tail,
fails with `-ENOSPC`.  Otherwise the header goes to the head block and the body to
the blocks after it, and the head advances.  The three write paths of the source
(one multi-block buffer, header and one data block, header and a body loop) put the
same bytes in the same blocks; this is the last. -/
def xfsLogWriteRecordLocked (crc32c : List UInt8 → UInt32) (uuid : List UInt8) (blockSize : UInt32)
    (log : XfsLog) (d : Disk) (items : List XfsTransItem) : Except Errno (XfsLog × Disk) :=
  if !log.active then .error .inval
  else if numLogops items = 0 then .ok (log, d)
  else
    let totalBlocks := 1 + recordDataBlocks items blockSize
    if totalBlocks > log.logBlocks then .error .nospc
    else if totalBlocks ≥ logAvail log then .error .nospc
    else
      match xfsLogWriteHeaderBytes crc32c (recordHeader uuid blockSize log items)
          (d (log.diskBlock log.headBlock)) blockSize.toNat with
      | none => .error .inval
      | some hdrBytes =>
        match xfsLogSerializeBody ((recordDataBlocks items blockSize).toNat * blockSize.toNat) items [] with
        | none => .error .overflow
        | some body =>
          let r := writeBodyBlocks log blockSize.toNat body.length body
            (d.write (log.diskBlock log.headBlock) hdrBytes) ((log.headBlock + 1) % log.logBlocks)
          .ok (xfsLogAdvanceHead log log.headBlock r.2, r.1)

/-! ## Recovery -/

/-- The body read loop of `replay_log_record`: from log block `cur`, `dataBlocks`
blocks, taking from each the bytes of the body that remain, up to a block. -/
def readBody (log : XfsLog) (blockSize : Nat) (d : Disk) :
    Nat → Nat → UInt32 → List UInt8 × UInt32
  | 0, _, cur => ([], cur)
  | n + 1, remaining, cur =>
    let chunk := min remaining blockSize
    let r := readBody log blockSize d n (remaining - chunk) ((cur + 1) % log.logBlocks)
    ((d (log.diskBlock cur)).take chunk ++ r.1, r.2)

/-- The item loop of `replay_log_record`.  An item with a 16-byte header, a length
in `(0, 4 * block size]` and bytes inside the body is copied into its target block
when the region fits there (`off + len` in 32 bits), and counted; anything else is
taken as an 8-byte inode item.  Each pass moves `pos` on by at least 8 bytes, so
`fuel = body size + 1` suffices. -/
def replayItems (blockSize : UInt32) (body : List UInt8) (bodySize numLogops : UInt32) :
    Nat → Disk → UInt32 → UInt32 → Disk
  | 0, d, _, _ => d
  | fuel + 1, d, pos, replayed =>
    if pos < bodySize ∧ replayed < numLogops then
      let blkNo := readLe64 body pos.toNat
      let off := readLe32 body (pos.toNat + 8)
      let len := readLe32 body (pos.toNat + 12)
      if pos + 16 ≤ bodySize ∧ len > 0 ∧ len ≤ blockSize * 4 ∧ pos + 16 + len ≤ bodySize then
        let target := d blkNo.toNat
        if (off + len).toNat ≤ target.length then
          replayItems blockSize body bodySize numLogops fuel
            (d.write blkNo.toNat (overwrite target off.toNat (slice body (pos.toNat + 16) len.toNat)))
            (pos + 16 + len) (replayed + 1)
        else replayItems blockSize body bodySize numLogops fuel d (pos + 16 + len) replayed
      else if pos + 8 ≤ bodySize then
        replayItems blockSize body bodySize numLogops fuel d (pos + 8) (replayed + 1)
      else d
    else d

/-- `replay_log_record` at log block `block`: `none` when the block holds no record
header; otherwise the device after the replay and the block after the record. -/
def replayLogRecord (blockSize : UInt32) (log : XfsLog) (d : Disk) (block : UInt32) :
    Option (Disk × UInt32) :=
  let hdr := d (log.diskBlock block)
  if readBe32 hdr 0 ≠ xlogHeaderMagicNum then none
  else
    let bodySize := readBe32 hdr 12
    let numLogops := readBe32 hdr 40
    if bodySize = 0 ∨ numLogops = 0 then some (d, (block + 1) % log.logBlocks)
    else
      let dataBlocks := (bodySize + blockSize - 1) / blockSize
      let body := readBody log blockSize.toNat d dataBlocks.toNat bodySize.toNat
        ((block + 1) % log.logBlocks)
      some (replayItems blockSize body.1 bodySize numLogops (bodySize.toNat + 1) d 0 0, body.2)

/-- The replay loop of `xfs_log_recover`: while `(cycle, block)` is before the head,
replay the record there; stop at a block without a record, and after more records
than the log has blocks (`records` so far).  `fuel = log_blocks + 1` is the most
passes that check allows. -/
def recoverLoop (blockSize : UInt32) (log : XfsLog) :
    Nat → Disk → UInt32 → UInt32 → Nat → Disk
  | 0, d, _, _, _ => d
  | fuel + 1, d, curBlock, curCycle, records =>
    if curCycle < log.headCycle ∨ (curCycle = log.headCycle ∧ curBlock < log.headBlock) then
      match replayLogRecord blockSize log d curBlock with
      | none => d
      | some (d', next) =>
        let curCycle' := if next < curBlock then curCycle + 1 else curCycle
        if records + 1 > log.logBlocks.toNat then d'
        else recoverLoop blockSize log fuel d' next curCycle' (records + 1)
    else d

/-- `xfs_log_recover`: replay from the tail, then mark the log clean. -/
def xfsLogRecover (blockSize : UInt32) (log : XfsLog) (d : Disk) : XfsLog × Disk :=
  ({ log with clean := true, tailBlock := log.headBlock, tailCycle := log.headCycle },
    recoverLoop blockSize log (log.logBlocks.toNat + 1) d log.tailBlock log.tailCycle 0)

/-- `xfs_log_find_head_tail`.  No header at log block `0`: the log is clean.
Otherwise the head cycle is that header's, the tail its `h_tail_lsn`, and the first
word of the last log block decides: the same cycle, clean when the tail is at block
`0` of it; another, the head cycle becomes that word.  The head block is `0` in
both cases. -/
def xfsLogFindHeadTail (log : XfsLog) (d : Disk) : XfsLog :=
  let hdr := d (log.diskBlock 0)
  if readBe32 hdr 0 ≠ xlogHeaderMagicNum then
    { log with headCycle := 1, headBlock := 0, tailCycle := 1, tailBlock := 0, clean := true }
  else
    let headCycle := readBe32 hdr 4
    let tailLsn := readBe64 hdr 24
    let tailCycle := (tailLsn >>> 32).toUInt32
    let tailBlock := tailLsn.toUInt32
    let lastCycle := readBe32 (d (log.diskBlock (log.logBlocks - 1))) 0
    if lastCycle = headCycle then
      { log with headCycle := headCycle, headBlock := 0, tailCycle := tailCycle,
                 tailBlock := tailBlock, clean := headCycle == tailCycle && tailBlock == 0 }
    else
      { log with headCycle := lastCycle, headBlock := 0, tailCycle := tailCycle,
                 tailBlock := tailBlock, clean := false }

/-- `xfs_log_mount`: find head and tail, recover a dirty log unless the mount is
read-only, and activate the log. -/
def xfsLogMount (blockSize : UInt32) (readOnly : Bool) (logStart : UInt64) (logBlocks : UInt32)
    (d : Disk) : Except Errno (XfsLog × Disk) :=
  if logBlocks = 0 then .error .inval
  else
    let log₀ : XfsLog := ⟨logStart, logBlocks, 0, 0, 0, 0, true, false⟩
    let log₁ := xfsLogFindHeadTail log₀ d
    let r := if !log₁.clean && !readOnly then xfsLogRecover blockSize log₁ d else (log₁, d)
    .ok ({ r.1 with active := true }, r.2)

/-- `xfs_log_clear_clean` at a clean unmount: every log block zero, head and tail
at cycle `1`, block `0`. -/
def xfsLogClearClean (blockSize : Nat) (log : XfsLog) (d : Disk) : XfsLog × Disk :=
  ({ log with headCycle := 1, headBlock := 0, tailCycle := 1, tailBlock := 0, clean := true },
    fun b => if log.logStart.toNat ≤ b ∧ b < log.logStart.toNat + log.logBlocks.toNat then
      List.replicate blockSize 0 else d b)

/-! ## Reading back what the writer wrote -/

theorem readBe32_of_slice {buf : List UInt8} {off : Nat} {v : UInt32}
    (h : slice buf off 4 = encodeBE 4 v.toNat) : readBe32 buf off = v := by
  have hv := v.toNat_lt
  rw [readBe32, h, decodeBE_encodeBE, Nat.mod_eq_of_lt (by omega), UInt32.ofNat_toNat]

theorem readBe64_of_slice {buf : List UInt8} {off : Nat} {v : UInt64}
    (h : slice buf off 8 = encodeBE 8 v.toNat) : readBe64 buf off = v := by
  have hv := v.toNat_lt
  rw [readBe64, h, decodeBE_encodeBE, Nat.mod_eq_of_lt (by omega), UInt64.ofNat_toNat]

theorem readBe32_replicate_zero (n off : Nat) : readBe32 (List.replicate n 0) off = 0 := by
  rw [readBe32, slice_replicate, decodeBE_replicate_zero]
  rfl

section HeaderFields
variable (h : XlogRecHeader)

@[simp] theorem XlogRecHeader.length_bytes : h.bytes.length = xlogRecHeaderSize := by
  simp [XlogRecHeader.bytes, xlogRecHeaderSize, -List.reduceReplicate]

theorem XlogRecHeader.slice_magicno : slice h.bytes 0 4 = encodeBE 4 h.magicno.toNat := by
  simp [XlogRecHeader.bytes, slice, -List.reduceReplicate]

theorem XlogRecHeader.slice_cycle : slice h.bytes 4 4 = encodeBE 4 h.cycle.toNat := by
  simp [XlogRecHeader.bytes, slice, -List.reduceReplicate]

theorem XlogRecHeader.slice_tailLsn : slice h.bytes 24 8 = encodeBE 8 h.tailLsn.toNat := by
  simp [XlogRecHeader.bytes, slice, List.drop_append, List.drop_eq_nil_of_le, List.take_append,
    -List.reduceReplicate]

end HeaderFields

/-- **The header writer keeps the fields before `h_crc`**: in a block of at least 36
bytes they read back as the header has them. -/
theorem xfsLogWriteHeaderBytes_slice {crc32c : List UInt8 → UInt32} {hdr : XlogRecHeader}
    {dst out : List UInt8} {bs : Nat} (h : xfsLogWriteHeaderBytes crc32c hdr dst bs = some out)
    (hlen : dst.length = bs) (hbs : 36 ≤ bs) {a width : Nat} (haw : a + width ≤ 32) :
    slice out a width = slice hdr.bytes a width := by
  unfold xfsLogWriteHeaderBytes at h
  rw [if_neg (by omega)] at h
  obtain rfl := Option.some.inj h
  have hwl : 32 ≤ min xlogRecHeaderSize bs := by simp only [xlogRecHeaderSize]; omega
  have hsrc : 0 + (hdr.bytes.take (min xlogRecHeaderSize bs)).length ≤ dst.length := by
    simp only [List.length_take, XlogRecHeader.length_bytes]
    omega
  rw [slice_overwrite_of_le (by simp; omega) haw, slice_overwrite_of_le (by simp; omega) haw,
    ← Nat.zero_add a, slice_overwrite_inside hsrc (by simp; omega), slice_take (by omega), Nat.zero_add]

/-! ## What a record write does -/

/-- **What the writer can do**: log nothing, or, with the record shorter than the
free space, write the header at the head block and the body after it, and advance
the head. -/
theorem xfsLogWriteRecordLocked_ok {crc32c : List UInt8 → UInt32} {uuid : List UInt8} {bs : UInt32}
    {log log' : XfsLog} {d d' : Disk} {items : List XfsTransItem}
    (h : xfsLogWriteRecordLocked crc32c uuid bs log d items = .ok (log', d')) :
    (numLogops items = 0 ∧ log' = log ∧ d' = d) ∨
    (1 + recordDataBlocks items bs < logAvail log ∧
      ∃ hdrBytes body,
        xfsLogWriteHeaderBytes crc32c (recordHeader uuid bs log items) (d (log.diskBlock log.headBlock))
          bs.toNat = some hdrBytes ∧
        xfsLogSerializeBody ((recordDataBlocks items bs).toNat * bs.toNat) items [] = some body ∧
        log' = xfsLogAdvanceHead log log.headBlock (writeBodyBlocks log bs.toNat body.length body
          (d.write (log.diskBlock log.headBlock) hdrBytes) ((log.headBlock + 1) % log.logBlocks)).2 ∧
        d' = (writeBodyBlocks log bs.toNat body.length body
          (d.write (log.diskBlock log.headBlock) hdrBytes) ((log.headBlock + 1) % log.logBlocks)).1) := by
  unfold xfsLogWriteRecordLocked at h
  dsimp only at h
  split_ifs at h with hact hnone hbig havail
  · obtain ⟨rfl, rfl⟩ := Prod.mk.inj (Except.ok.inj h).symm
    exact .inl ⟨hnone, rfl, rfl⟩
  · right
    refine ⟨UInt32.lt_iff_toNat_lt.mpr (by have := UInt32.le_iff_toNat_le.not.mp havail; omega), ?_⟩
    rcases hhdr : xfsLogWriteHeaderBytes crc32c (recordHeader uuid bs log items)
        (d (log.diskBlock log.headBlock)) bs.toNat with _ | hdrBytes
    · rw [hhdr] at h
      cases h
    · rcases hbody : xfsLogSerializeBody ((recordDataBlocks items bs).toNat * bs.toNat) items [] with
        _ | body
      · rw [hhdr, hbody] at h
        cases h
      · rw [hhdr, hbody] at h
        obtain ⟨rfl, rfl⟩ := Prod.mk.inj (Except.ok.inj h).symm
        exact ⟨hdrBytes, body, rfl, rfl, rfl, rfl⟩

theorem length_record_le (b : XfsTransBufItem) : b.record.length ≤ 16 + b.len.toNat := by
  simp [XfsTransBufItem.record, slice]
  omega

/-- The serialized body fits the buffer it was serialized into. -/
theorem xfsLogSerializeBody_length {cap : Nat} {items : List XfsTransItem} :
    ∀ {acc body : List UInt8}, xfsLogSerializeBody cap items acc = some body →
      acc.length ≤ cap → body.length ≤ cap := by
  induction items with
  | nil =>
    intro acc body h hacc
    obtain rfl := Option.some.inj h
    exact hacc
  | cons it rest ih =>
    intro acc body h hacc
    unfold xfsLogSerializeBody at h
    split_ifs at h with hlog hfit
    · have := length_record_le it.buf
      exact ih h (by simp only [List.length_append]; omega)
    · exact ih h hacc

/-- One block on around the ring, in 32-bit arithmetic. -/
theorem toNat_succ_mod {cur L : UInt32} (h : cur < L) :
    ((cur + 1) % L).toNat = (cur.toNat + 1) % L.toNat := by
  have hc := UInt32.lt_iff_toNat_lt.mp h
  have hL := L.toNat_lt
  rw [UInt32.toNat_mod, UInt32.toNat_add, UInt32.toNat_one,
    Nat.mod_eq_of_lt (show cur.toNat + 1 < 2 ^ 32 by omega)]

/-- **The body loop writes only the blocks of the ring it reaches**: a body of at
most `m` blocks' worth of bytes, written from ring block `cur`, leaves every block
but the `m` ring blocks from `cur` unchanged. -/
theorem writeBodyBlocks_unchanged {log : XfsLog} {bs : Nat} :
    ∀ (fuel m : Nat) (body : List UInt8) (d : Disk) (cur : UInt32) (b : Nat),
      body.length ≤ m * bs → cur < log.logBlocks →
      (∀ k < m, b ≠ log.logStart.toNat + (cur.toNat + k) % log.logBlocks.toNat) →
      (writeBodyBlocks log bs fuel body d cur).1 b = d b := by
  intro fuel
  induction fuel with
  | zero => intro m body d cur b _ _ _; rfl
  | succ fuel ih =>
    intro m body d cur b hlen hcur hb
    unfold writeBodyBlocks
    split
    · rfl
    · rename_i hne
      have hpos : 0 < body.length := by
        cases body with
        | nil => simp at hne
        | cons _ _ => simp
      obtain ⟨m, rfl⟩ : ∃ m', m = m' + 1 :=
        Nat.exists_eq_add_one.mpr (Nat.pos_of_ne_zero (by rintro rfl; rw [Nat.zero_mul] at hlen; omega))
      have hcurL := UInt32.lt_iff_toNat_lt.mp hcur
      have hfirst : b ≠ log.diskBlock cur := by
        have := hb 0 (Nat.succ_pos m)
        rwa [Nat.add_zero, Nat.mod_eq_of_lt hcurL] at this
      rw [ih m (body.drop bs) _ _ b (by simp; rw [Nat.add_mul] at hlen; omega)
        (UInt32.lt_iff_toNat_lt.mpr (by rw [toNat_succ_mod hcur]; exact Nat.mod_lt _ (by omega)))]
      · exact Disk.write_ne _ hfirst
      · intro k hk
        rw [toNat_succ_mod hcur, Nat.mod_add_mod, Nat.add_assoc, Nat.add_comm 1 k]
        exact hb (k + 1) (by omega)

/-- With blocks of at least two bytes the record's data blocks are fewer than `2^31`,
so `1 + DATA_BLOCKS` does not wrap. -/
theorem recordDataBlocks_lt (items : List XfsTransItem) {bs : UInt32} (hbs : 2 ≤ bs.toNat) :
    (recordDataBlocks items bs).toNat < 2 ^ 31 := by
  have hx := (bodySize items + bs - 1).toNat_lt
  rw [recordDataBlocks, UInt32.toNat_div]
  exact lt_of_le_of_lt (Nat.div_le_div_left hbs (by norm_num)) (by omega)

/-! ## Mounting -/

/-- Mounting a log without a record header at block `0` finds it clean and changes
no block. -/
theorem xfsLogMount_of_no_header {bs : UInt32} {ro : Bool} {logStart : UInt64} {L : UInt32}
    {d : Disk} (hL : L ≠ 0) (h : readBe32 (d logStart.toNat) 0 ≠ xlogHeaderMagicNum) :
    xfsLogMount bs ro logStart L d = .ok (⟨logStart, L, 1, 0, 1, 0, true, true⟩, d) := by
  simp [xfsLogMount, xfsLogFindHeadTail, XfsLog.diskBlock, hL, h]

/-- Mounting a log whose block `0` holds the header of a first-cycle record with its
tail at block `0`, and whose last block starts with zero: head discovery puts the
head at cycle `0`, block `0`, before the tail, and recovery replays nothing. -/
theorem xfsLogMount_of_first_cycle_header {bs : UInt32} {logStart : UInt64} {L : UInt32} {d : Disk}
    (hL : L ≠ 0) (hmagic : readBe32 (d logStart.toNat) 0 = xlogHeaderMagicNum)
    (hcycle : readBe32 (d logStart.toNat) 4 = 1)
    (htail : readBe64 (d logStart.toNat) 24 = ((1 : UInt32).toUInt64 <<< 32) ||| (0 : UInt32).toUInt64)
    (hlast : readBe32 (d (logStart.toNat + (L - 1).toNat)) 0 = 0) :
    xfsLogMount bs false logStart L d = .ok (⟨logStart, L, 0, 0, 0, 0, true, true⟩, d) := by
  have hd : ∀ b : UInt32, XfsLog.diskBlock ⟨logStart, L, 0, 0, 0, 0, true, false⟩ b =
      logStart.toNat + b.toNat := fun _ => rfl
  simp [xfsLogMount, xfsLogFindHeadTail, hd, hL, hmagic, hcycle, htail, hlast, xfsLogRecover,
    recoverLoop]

/-- **After a clean unmount, the first record written is never replayed.**  The log
is cleared, mounted, and one batch's record is written and made durable; its home
blocks are not yet written back.  Mounting the device then changes no block, and
every block outside the log holds what it held before the batch. -/
theorem xfsLogMount_after_first_record (crc32c : List UInt8 → UInt32) (uuid : List UInt8)
    {bs : UInt32} {log₀ log₁ log₂ : XfsLog} {d₀ d₁ d₂ : Disk} {items : List XfsTransItem}
    (hbs : 512 ≤ bs.toNat) (hL : 2 ≤ log₀.logBlocks.toNat)
    (hmount : xfsLogMount bs false log₀.logStart log₀.logBlocks
      (xfsLogClearClean bs.toNat log₀ d₀).2 = .ok (log₁, d₁))
    (hwrite : xfsLogWriteRecordLocked crc32c uuid bs log₁ d₁ items = .ok (log₂, d₂)) :
    (∃ log₃, xfsLogMount bs false log₀.logStart log₀.logBlocks d₂ = .ok (log₃, d₂)) ∧
      ∀ b, b < log₀.logStart.toNat ∨ log₀.logStart.toNat + log₀.logBlocks.toNat ≤ b → d₂ b = d₀ b := by
  rcases log₀ with ⟨logStart, L, hc, hb, tc, tb, cl, ac⟩
  dsimp only at hL hmount ⊢
  have hL0 : L ≠ 0 := by rintro rfl; simp at hL
  set dc := (xfsLogClearClean bs.toNat ⟨logStart, L, hc, hb, tc, tb, cl, ac⟩ d₀).2 with hdc
  have hin : ∀ j < L.toNat, dc (logStart.toNat + j) = List.replicate bs.toNat 0 := by
    intro j hj
    simp [hdc, xfsLogClearClean, hj]
  have hout : ∀ b, b < logStart.toNat ∨ logStart.toNat + L.toNat ≤ b → dc b = d₀ b := by
    intro b hb
    simp only [hdc, xfsLogClearClean]
    rw [if_neg (by omega)]
  have hzero := hin 0 (by omega)
  rw [Nat.add_zero] at hzero
  rw [xfsLogMount_of_no_header hL0 (by rw [hzero, readBe32_replicate_zero]; decide)] at hmount
  obtain ⟨rfl, rfl⟩ := Prod.mk.inj (Except.ok.inj hmount).symm
  rcases xfsLogWriteRecordLocked_ok hwrite with ⟨-, -, rfl⟩ | ⟨havail, hdrBytes, body, hhdr, hbody, -, rfl⟩
  · -- nothing was logged: the device is the cleared one
    exact ⟨⟨_, xfsLogMount_of_no_header hL0 (by rw [hzero, readBe32_replicate_zero]; decide)⟩, hout⟩
  · -- the record: its header at log block `0`, its body in the blocks after it
    set log₁ : XfsLog := ⟨logStart, L, 1, 0, 1, 0, true, true⟩
    have hdisk : ∀ b : UInt32, log₁.diskBlock b = logStart.toNat + b.toNat := fun _ => rfl
    have hm : 1 + (recordDataBlocks items bs).toNat < L.toNat := by
      have hlt := @recordDataBlocks_lt items bs (by omega)
      have havail' : 1 + recordDataBlocks items bs < L := by simpa [logAvail, log₁] using havail
      rw [UInt32.lt_iff_toNat_lt, UInt32.toNat_add, UInt32.toNat_one, Nat.mod_eq_of_lt (by omega)] at havail'
      exact havail'
    have hcur : ((log₁.headBlock + 1) % log₁.logBlocks).toNat = 1 := by
      show ((0 + 1) % L).toNat = 1
      rw [toNat_succ_mod (UInt32.lt_iff_toNat_lt.mpr (by simp; omega))]
      simp only [UInt32.toNat_zero, Nat.zero_add]
      exact Nat.mod_eq_of_lt (by omega)
    have hlen : body.length ≤ (recordDataBlocks items bs).toNat * bs.toNat :=
      xfsLogSerializeBody_length hbody (by simp)
    -- the body loop leaves every block but log blocks `1 … DATA_BLOCKS` as the header write left it
    have hkeep : ∀ b, (∀ k < (recordDataBlocks items bs).toNat, b ≠ logStart.toNat + (1 + k)) →
        (writeBodyBlocks log₁ bs.toNat body.length body (dc.write (log₁.diskBlock log₁.headBlock) hdrBytes)
          ((log₁.headBlock + 1) % log₁.logBlocks)).1 b = (dc.write (log₁.diskBlock log₁.headBlock) hdrBytes) b := by
      intro b hb
      refine writeBodyBlocks_unchanged _ _ _ _ _ b hlen
        (UInt32.lt_iff_toNat_lt.mpr (by rw [hcur]; simp [log₁]; omega)) ?_
      intro k hk
      rw [hcur, Nat.mod_eq_of_lt (by simp [log₁]; omega)]
      exact hb k hk
    set dB := (writeBodyBlocks log₁ bs.toNat body.length body
      (dc.write (log₁.diskBlock log₁.headBlock) hdrBytes) ((log₁.headBlock + 1) % log₁.logBlocks)).1
      with hdB
    have hL1 : (L - 1).toNat = L.toNat - 1 := by
      rw [UInt32.toNat_sub_of_le _ _ (UInt32.le_iff_toNat_le.mpr (by simp; omega))]
      simp
    have hhead : dB logStart.toNat = hdrBytes := by
      rw [hkeep _ (fun k _ => by omega), hdisk]
      simp [log₁]
    have hlast : dB (logStart.toNat + (L - 1).toNat) = List.replicate bs.toNat 0 := by
      rw [hkeep _ (fun k hk => by omega), Disk.write_ne _ (by rw [hdisk]; simp [log₁]; omega),
        hin _ (by omega)]
    have hframe : ∀ b, b < logStart.toNat ∨ logStart.toNat + L.toNat ≤ b → dB b = d₀ b := by
      intro b hb
      rw [hkeep _ (fun k _ => by omega), Disk.write_ne _ (by rw [hdisk]; simp [log₁]; omega),
        hout b hb]
    have hfield : ∀ a w, a + w ≤ 32 →
        slice hdrBytes a w = slice (recordHeader uuid bs log₁ items).bytes a w := by
      intro a w haw
      refine xfsLogWriteHeaderBytes_slice hhdr ?_ (by omega) haw
      rw [hdisk]
      simp [log₁, hzero]
    refine ⟨⟨_, xfsLogMount_of_first_cycle_header hL0 ?_ ?_ ?_ ?_⟩, hframe⟩
    · rw [hhead]
      exact readBe32_of_slice (by rw [hfield 0 4 (by norm_num), XlogRecHeader.slice_magicno]; rfl)
    · rw [hhead]
      exact readBe32_of_slice (by rw [hfield 4 4 (by norm_num), XlogRecHeader.slice_cycle]; rfl)
    · rw [hhead]
      exact readBe64_of_slice (by rw [hfield 24 8 (by norm_num), XlogRecHeader.slice_tailLsn]; rfl)
    · rw [hlast, readBe32_replicate_zero]

/-- **A batch that reached `LOG_DURABLE` is lost.**  A file system of 512-byte blocks
with an 8-block log at block 100 is cleanly unmounted, which clears the log, and
mounted again.  One transaction writes `1 2 3 4` at the start of block 5; its record
reaches the log, and the machine stops before the home write-back.  After the next
mount block 5 still starts with zeros. -/
theorem xfs_log_recovery_skips_durable_batch (crc32c : List UInt8 → UInt32) :
    ∃ log₁ log₂ log₃ d₁ d₂,
      xfsLogMount 512 false 100 8
          (xfsLogClearClean 512 ⟨100, 8, 0, 0, 0, 0, true, true⟩ fun _ => List.replicate 512 0).2 =
        .ok (log₁, d₁) ∧
      xfsLogWriteRecordLocked crc32c [] 512 log₁ d₁
          [⟨.buffer, ⟨5, [1, 2, 3, 4] ++ List.replicate 508 0, 0, 4, true⟩⟩] = .ok (log₂, d₂) ∧
      xfsLogMount 512 false 100 8 d₂ = .ok (log₃, d₂) ∧ slice (d₂ 5) 0 4 ≠ [1, 2, 3, 4] := by
  obtain ⟨log₂, d₂, hwrite⟩ : ∃ log₂ d₂, xfsLogWriteRecordLocked crc32c [] 512
      ⟨100, 8, 1, 0, 1, 0, true, true⟩
      (xfsLogClearClean 512 ⟨100, 8, 0, 0, 0, 0, true, true⟩ fun _ => List.replicate 512 0).2
      [⟨.buffer, ⟨5, [1, 2, 3, 4] ++ List.replicate 508 0, 0, 4, true⟩⟩] = .ok (log₂, d₂) :=
    ⟨_, _, rfl⟩
  have hmount : xfsLogMount 512 false 100 8
      (xfsLogClearClean 512 ⟨100, 8, 0, 0, 0, 0, true, true⟩ fun _ => List.replicate 512 0).2 =
      .ok (⟨100, 8, 1, 0, 1, 0, true, true⟩,
        (xfsLogClearClean 512 ⟨100, 8, 0, 0, 0, 0, true, true⟩ fun _ => List.replicate 512 0).2) :=
    xfsLogMount_of_no_header (by decide) (by decide)
  obtain ⟨⟨log₃, hmount₂⟩, hframe⟩ :=
    @xfsLogMount_after_first_record crc32c [] 512 ⟨100, 8, 0, 0, 0, 0, true, true⟩ _ _ _ _ _ _
      (by decide) (by decide) hmount hwrite
  refine ⟨_, log₂, log₃, _, d₂, hmount, hwrite, hmount₂, ?_⟩
  rw [hframe 5 (.inl (by decide))]
  decide

end Wos.Xfs
