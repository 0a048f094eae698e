import WosKernel.ByteCodec

/-! # Offset tags of a short-form XFS directory (`vfs/fs/xfs/xfs_dir2.cpp`)

A short-form directory lives in the inode's data fork: a header (`count`, `i8count`, the
parent's inode number in 4 or 8 bytes) and `count` packed entries, each `namelen`, a 2-byte
big-endian offset tag, the name, a file-type byte when the file system has `ftype`, and the
inode number.  The tags are the offsets the entries would have in a data block; readdir
cookies are minted from them, so they must stay strictly increasing with room for each
entry's data-block size, and at most `UINT16_MAX`.

Two walks check this: `sf_repair_offset_tags` raises every tag below the running minimum
to it, and `sf_next_offset_tag` rejects such tags and returns the offset after the last
entry.  `dir2_sf_addname` repairs a copy of the fork, appends the new entry with that offset
as its tag, and `dir2_sf_removename` splices an entry out and repairs the result.

The walks read the buffer through `getD` (in-bounds reads once their length checks pass) and
write the tag bytes with `List.set`; the size of a walked buffer is its length, which the
repair never changes.  The inode number width is read once from the header, which neither
walk writes.  Allocation failures (`-ENOMEM`) and the transaction log are not modelled.

The results:

* `sfRepairOffsetTags_spec`: a repair that succeeds changes only tag bytes, raises each tag
  to the running minimum (`RaisedTags`), and leaves tags `sf_next_offset_tag` accepts;
* `sfRepairOffsetTags_idem`: repairing twice is repairing once, errors included;
* `dir2SfRemovename_valid`: a removal that succeeds leaves valid tags; both paths leave the
  inode as it was when they fail (`dir2SfAddname_error`, `dir2SfRemovename_error`);
* `dir2SfAddname_valid`: an addition that succeeds appends an entry tagged with the offset
  `sf_next_offset_tag` returned, and leaves valid tags when that entry still ends at most at
  `UINT16_MAX` (and the count does not wrap);
* `dir2SfAddname_tag_overflow`: nothing checks that bound, so an addition succeeds on a fork
  whose last entry ends near `UINT16_MAX` and leaves tags that `sf_next_offset_tag` refuses
  with `-E2BIG`; removing a name from that fork then fails.
-/

namespace Wos.XfsSf

open ByteCodec

/-- The error numbers these paths return. -/
inductive Errno where
  | einval | e2big | enoent
deriving DecidableEq, Repr

/-- `XFS_SB_FEAT_INCOMPAT_FTYPE`. -/
def xfsSbFeatIncompatFtype : UInt32 := (1 : UInt32) <<< 0

/-- What these paths read of `XfsMountContext`. -/
structure XfsMountContext where
  featIncompat : UInt32
  inodeSize : UInt16
deriving DecidableEq, Repr

/-- `xfs_has_ftype`. -/
def xfsHasFtype (ctx : XfsMountContext) : Bool := (ctx.featIncompat &&& xfsSbFeatIncompatFtype) != 0

/-- `XFS_DIR2_DATA_ALIGN`. -/
def xfsDir2DataAlign : Nat := 8

/-- `UINT16_MAX`. -/
def uint16Max : Nat := 65535

/-- `sizeof(XfsDir3DataHdr)`. -/
def xfsDir3DataHdrSize : Nat := 64

/-- `sizeof(XfsDinode)`, the inode core before the literal area. -/
def xfsDinodeSize : Nat := 176

/-- `dir2_data_entsize`: the size of a data-block entry, rounded up to the alignment (the
source clears the low bits with `& ~(ALIGN - 1)`). -/
def dir2DataEntsize (ctx : XfsMountContext) (namelen : Nat) : Nat :=
  let len := 8 + 1 + namelen + 2 + (if xfsHasFtype ctx then 1 else 0)
  (len + xfsDir2DataAlign - 1) / xfsDir2DataAlign * xfsDir2DataAlign

/-- `dir2_data_first_offset`: after the header and the `.` and `..` entries. -/
def dir2DataFirstOffset (ctx : XfsMountContext) : Nat :=
  xfsDir3DataHdrSize + dir2DataEntsize ctx 1 + dir2DataEntsize ctx 2

/-! ## The header and the entries -/

/-- `xfs_dir2_sf_inumber_size`: 8-byte inode numbers when `i8count` is set. -/
def xfsDir2SfInumberSize (data : List UInt8) : Nat := if data.getD 1 0 ≠ 0 then 8 else 4

/-- `xfs_dir2_sf_hdr_size`. -/
def xfsDir2SfHdrSize (data : List UInt8) : Nat := 2 + xfsDir2SfInumberSize data

/-- `dir2_sf_header_size_if_valid`: the header's size, if the buffer holds it. -/
def dir2SfHeaderSizeIfValid (data : List UInt8) : Option Nat :=
  if data.length < 2 then none
  else if xfsDir2SfHdrSize data > data.length then none
  else some (xfsDir2SfHdrSize data)

/-- The header's `count`. -/
def sfCount (data : List UInt8) : Nat := (data.getD 0 0).toNat

/-- The `namelen` of the entry at `ptr`. -/
def sfEntryNamelen (data : List UInt8) (ptr : Nat) : Nat := (data.getD ptr 0).toNat

/-- `sf_entry_stored_offset`: the big-endian tag after `namelen`. -/
def sfEntryStoredOffset (data : List UInt8) (ptr : Nat) : Nat :=
  (data.getD (ptr + 1) 0).toNat * 256 + (data.getD (ptr + 2) 0).toNat

/-- `sf_entry_store_offset`. -/
def sfEntryStoreOffset (data : List UInt8) (ptr offset : Nat) : List UInt8 :=
  (data.set (ptr + 1) (UInt8.ofNat (offset / 256))).set (ptr + 2) (UInt8.ofNat (offset % 256))

/-- `sf_entry_size`, for inode numbers of `inoSize` bytes. -/
def sfEntrySize (inoSize : Nat) (hasFtype : Bool) (namelen : Nat) : Nat :=
  1 + 2 + namelen + (if hasFtype then 1 else 0) + inoSize

/-! ## The two walks -/

/-- The loop of `sf_repair_offset_tags` over `k` more entries from `ptr`, where the next tag
must be at least `nextOffset`, and its final check that the entries end the buffer: the
buffer with the tags raised so far, and the outcome. -/
def sfRepairWalk (ctx : XfsMountContext) (inoSize : Nat) :
    Nat → List UInt8 → Nat → Nat → List UInt8 × Except Errno Unit
  | 0, data, ptr, _ => (data, if ptr = data.length then .ok () else .error .einval)
  | k + 1, data, ptr, nextOffset =>
    if ptr ≥ data.length then (data, .error .einval)
    else
      let namelen := sfEntryNamelen data ptr
      let entrySize := sfEntrySize inoSize (xfsHasFtype ctx) namelen
      if namelen = 0 ∨ entrySize = 0 ∨ ptr + entrySize > data.length ∨ nextOffset > uint16Max then
        (data, .error .einval)
      else
        let stored := sfEntryStoredOffset data ptr
        -- a tag below the running minimum is raised to it
        let data := if stored < nextOffset then sfEntryStoreOffset data ptr nextOffset else data
        let stored := if stored < nextOffset then nextOffset else stored
        let nextOffset := stored + dir2DataEntsize ctx namelen
        if nextOffset > uint16Max then (data, .error .e2big)
        else sfRepairWalk ctx inoSize k data (ptr + entrySize) nextOffset

/-- `sf_repair_offset_tags`: the buffer it leaves, written in place also when it fails. -/
def sfRepairOffsetTags (data : List UInt8) (ctx : XfsMountContext) : List UInt8 × Except Errno Unit :=
  match dir2SfHeaderSizeIfValid data with
  | none => (data, .error .einval)
  | some hdrSize =>
    sfRepairWalk ctx (xfsDir2SfInumberSize data) (sfCount data) data hdrSize (dir2DataFirstOffset ctx)

/-- The loop of `sf_next_offset_tag` over `k` more entries from `ptr`, and its final check:
the offset after the last entry. -/
def sfNextOffsetWalk (ctx : XfsMountContext) (inoSize : Nat) (data : List UInt8) :
    Nat → Nat → Nat → Except Errno Nat
  | 0, ptr, nextOffset => if ptr ≠ data.length then .error .einval else .ok nextOffset
  | k + 1, ptr, nextOffset =>
    if ptr ≥ data.length then .error .einval
    else
      let namelen := sfEntryNamelen data ptr
      let entrySize := sfEntrySize inoSize (xfsHasFtype ctx) namelen
      if namelen = 0 ∨ entrySize = 0 ∨ ptr + entrySize > data.length then .error .einval
      else
        let stored := sfEntryStoredOffset data ptr
        if stored < nextOffset then .error .einval
        else
          let nextOffset := stored + dir2DataEntsize ctx namelen
          if nextOffset > uint16Max then .error .e2big
          else sfNextOffsetWalk ctx inoSize data k (ptr + entrySize) nextOffset

/-- `sf_next_offset_tag`: the tag the next entry gets. -/
def sfNextOffsetTag (data : List UInt8) (ctx : XfsMountContext) : Except Errno UInt16 :=
  match dir2SfHeaderSizeIfValid data with
  | none => .error .einval
  | some hdrSize =>
    (sfNextOffsetWalk ctx (xfsDir2SfInumberSize data) data (sfCount data) hdrSize
      (dir2DataFirstOffset ctx)).map UInt16.ofNat

/-! ## Adding and removing names -/

/-- What these paths read and write of `XfsInode`: the inline data fork, the attribute fork
offset, and the size and dirty flag they set. -/
structure XfsInode where
  dataForkLocal : List UInt8
  forkoff : UInt8
  size : Nat
  dirty : Bool
deriving DecidableEq, Repr

/-- The bytes `dir2_sf_addname` appends: `namelen`, the tag, the name, the file type when the
file system keeps it, and the inode number, big-endian in `inoSize` bytes. -/
def sfNewEntry (hasFtype : Bool) (inoSize : Nat) (name : List UInt8) (offVal : UInt16)
    (ino : UInt64) (ftype : UInt8) : List UInt8 :=
  [UInt8.ofNat name.length, UInt8.ofNat (offVal.toNat / 256), UInt8.ofNat (offVal.toNat % 256)] ++
    name ++ (if hasFtype then [ftype] else []) ++
    (if inoSize = 8 then encodeBE 8 ino.toNat else encodeBE 4 ino.toUInt32.toNat)

/-- `dir2_sf_addname`: the outcome and the inode after it. -/
def dir2SfAddname (ctx : XfsMountContext) (dp : XfsInode) (name : List UInt8) (ino : UInt64)
    (ftype : UInt8) : Except Errno Unit × XfsInode :=
  let hasFtype := xfsHasFtype ctx
  let oldData := dp.dataForkLocal
  match dir2SfHeaderSizeIfValid oldData with
  | none => (.error .einval, dp)
  | some _ =>
    let inoSize := xfsDir2SfInumberSize oldData
    let newEntrySize := 1 + 2 + name.length + (if hasFtype then 1 else 0) + inoSize
    let newSize := oldData.length + newEntrySize
    let i8count := oldData.getD 1 0
    let needI8 := i8count ≠ 0 ∨ ino.toNat > 0xFFFFFFFF
    -- a wider inode number would need the format converted
    if needI8 ∧ i8count = 0 then (.error .e2big, dp)
    else
      -- `inode_size - 176` in `size_t`, which wraps below the inode core
      let maxInline := if dp.forkoff ≠ 0 then dp.forkoff.toNat * 8
        else (ctx.inodeSize.toNat + 2 ^ 64 - xfsDinodeSize) % 2 ^ 64
      if newSize > maxInline then (.error .e2big, dp)
      else
        let (copy, rc) := sfRepairOffsetTags oldData ctx
        match rc.bind fun _ => sfNextOffsetTag copy ctx with
        | .error e => (.error e, dp)
        | .ok offVal =>
          let newData := copy.set 0 (copy.getD 0 0 + 1) ++
            sfNewEntry hasFtype inoSize name offVal ino ftype
          (.ok (), { dp with dataForkLocal := newData, size := newSize, dirty := true })

/-- The scan of `dir2_sf_removename` for `name` over `k` more entries from `ptr`: the start
and size of its entry. -/
def sfFindEntry (inoSize : Nat) (hasFtype : Bool) (data name : List UInt8) :
    Nat → Nat → Option (Nat × Nat)
  | 0, _ => none
  | k + 1, ptr =>
    if ptr ≥ data.length then none
    else
      let namelen := sfEntryNamelen data ptr
      let entrySize := sfEntrySize inoSize hasFtype namelen
      if namelen = name.length ∧ slice data (ptr + 3) namelen = name then some (ptr, entrySize)
      else sfFindEntry inoSize hasFtype data name k (ptr + entrySize)

/-- `dir2_sf_removename`: the fork without the entry, with the count lowered, repaired. -/
def dir2SfRemovename (ctx : XfsMountContext) (dp : XfsInode) (name : List UInt8) :
    Except Errno Unit × XfsInode :=
  let oldData := dp.dataForkLocal
  match dir2SfHeaderSizeIfValid oldData with
  | none => (.error .einval, dp)
  | some hdrSize =>
    match sfFindEntry (xfsDir2SfInumberSize oldData) (xfsHasFtype ctx) oldData name
        (sfCount oldData) hdrSize with
    | none => (.error .enoent, dp)
    | some (start, entrySize) =>
      let kept := oldData.take start ++ oldData.drop (start + entrySize)
      let (newData, rc) := sfRepairOffsetTags (kept.set 0 (kept.getD 0 0 - 1)) ctx
      match rc with
      | .error e => (.error e, dp)
      | .ok () =>
        (.ok (), { dp with dataForkLocal := newData, size := oldData.length - entrySize, dirty := true })

/-! ## Reading and writing tags -/

@[simp] theorem length_sfEntryStoreOffset (data : List UInt8) (ptr offset : Nat) :
    (sfEntryStoreOffset data ptr offset).length = data.length := by
  simp [sfEntryStoreOffset]

theorem getD_sfEntryStoreOffset_of_ne {data : List UInt8} {ptr offset j : Nat} (h₁ : j ≠ ptr + 1)
    (h₂ : j ≠ ptr + 2) : (sfEntryStoreOffset data ptr offset).getD j 0 = data.getD j 0 := by
  simp [sfEntryStoreOffset, List.getD_eq_getElem?_getD, Ne.symm h₁, Ne.symm h₂]

@[simp] theorem sfEntryNamelen_storeOffset (data : List UInt8) (ptr offset : Nat) :
    sfEntryNamelen (sfEntryStoreOffset data ptr offset) ptr = sfEntryNamelen data ptr := by
  unfold sfEntryNamelen
  rw [getD_sfEntryStoreOffset_of_ne (by omega) (by omega)]

/-- A tag written reads back. -/
theorem sfEntryStoredOffset_storeOffset {data : List UInt8} {ptr offset : Nat}
    (hp : ptr + 2 < data.length) (ho : offset ≤ uint16Max) :
    sfEntryStoredOffset (sfEntryStoreOffset data ptr offset) ptr = offset := by
  unfold uint16Max at ho
  simp [sfEntryStoredOffset, sfEntryStoreOffset, List.getD_eq_getElem?_getD,
    show ptr + 1 < data.length by omega, hp]
  omega

/-- Two buffers of one length that agree from index `q` on. -/
def AgreeFrom (a b : List UInt8) (q : Nat) : Prop :=
  a.length = b.length ∧ ∀ j, q ≤ j → a.getD j 0 = b.getD j 0

theorem AgreeFrom.mono {a b : List UInt8} {q q' : Nat} (h : AgreeFrom a b q) (hq : q ≤ q') :
    AgreeFrom a b q' :=
  ⟨h.1, fun j hj => h.2 j (Nat.le_trans hq hj)⟩

theorem AgreeFrom.namelen {a b : List UInt8} {q ptr : Nat} (h : AgreeFrom a b q) (hp : q ≤ ptr) :
    sfEntryNamelen a ptr = sfEntryNamelen b ptr := by
  unfold sfEntryNamelen
  rw [h.2 ptr hp]

theorem AgreeFrom.stored {a b : List UInt8} {q ptr : Nat} (h : AgreeFrom a b q) (hp : q ≤ ptr) :
    sfEntryStoredOffset a ptr = sfEntryStoredOffset b ptr := by
  unfold sfEntryStoredOffset
  rw [h.2 (ptr + 1) (by omega), h.2 (ptr + 2) (by omega)]

/-- A tag store leaves the buffer as it was from past the tag. -/
theorem agreeFrom_storeOffset (data : List UInt8) (ptr offset : Nat) :
    AgreeFrom (sfEntryStoreOffset data ptr offset) data (ptr + 3) :=
  ⟨length_sfEntryStoreOffset .., fun _ hj => getD_sfEntryStoreOffset_of_ne (by omega) (by omega)⟩

theorem sfEntrySize_ge (inoSize : Nat) (hasFtype : Bool) (namelen : Nat) :
    namelen + 3 ≤ sfEntrySize inoSize hasFtype namelen := by
  unfold sfEntrySize
  omega

/-! ## The checking walk -/

section Walks

variable (ctx : XfsMountContext) (inoSize : Nat)

/-- The checks `sf_next_offset_tag` makes of the entry at `ptr`, where the tag must be at
least `nextOffset`, all passed: `nextOffset'` is the offset after the entry. -/
structure EntryOk (data : List UInt8) (ptr nextOffset nextOffset' : Nat) : Prop where
  namelen_pos : 0 < sfEntryNamelen data ptr
  fits : ptr + sfEntrySize inoSize (xfsHasFtype ctx) (sfEntryNamelen data ptr) ≤ data.length
  tag_ge : nextOffset ≤ sfEntryStoredOffset data ptr
  next_eq : nextOffset' = sfEntryStoredOffset data ptr + dir2DataEntsize ctx (sfEntryNamelen data ptr)
  next_le : nextOffset' ≤ uint16Max

/-- **One step of the checking walk**: it goes on past an entry exactly when the entry passes
every check. -/
theorem sfNextOffsetWalk_succ_ok {data : List UInt8} {k ptr nextOffset v : Nat} :
    sfNextOffsetWalk ctx inoSize data (k + 1) ptr nextOffset = .ok v ↔
      ∃ nextOffset', EntryOk ctx inoSize data ptr nextOffset nextOffset' ∧
        sfNextOffsetWalk ctx inoSize data k
          (ptr + sfEntrySize inoSize (xfsHasFtype ctx) (sfEntryNamelen data ptr)) nextOffset' = .ok v := by
  have hsz := sfEntrySize_ge inoSize (xfsHasFtype ctx) (sfEntryNamelen data ptr)
  simp only [sfNextOffsetWalk]
  constructor
  · intro h
    split_ifs at h with h₁ h₂ h₃ h₄
    exact ⟨_, ⟨by omega, by omega, by omega, rfl, by omega⟩, h⟩
  · rintro ⟨n', hok, hrest⟩
    have := hok.fits
    have := hok.tag_ge
    have := hok.namelen_pos
    have := hok.next_le
    rw [if_neg (by omega), if_neg (by omega), if_neg (by omega), if_neg (by rw [← hok.next_eq]; omega),
      ← hok.next_eq]
    exact hrest

theorem EntryOk.congr {a b : List UInt8} {q ptr n n' : Nat} (h : EntryOk ctx inoSize a ptr n n')
    (hab : AgreeFrom a b q) (hq : q ≤ ptr) : EntryOk ctx inoSize b ptr n n' := by
  obtain ⟨h₁, h₂, h₃, h₄, h₅⟩ := h
  rw [hab.namelen hq] at h₁ h₂ h₄
  rw [hab.stored hq] at h₃ h₄
  exact ⟨h₁, hab.1 ▸ h₂, h₃, h₄, h₅⟩

/-- The checking walk reads only from where it starts. -/
theorem sfNextOffsetWalk_congr {a b : List UInt8} {q : Nat} (hab : AgreeFrom a b q) :
    ∀ k ptr n, q ≤ ptr →
      sfNextOffsetWalk ctx inoSize a k ptr n = sfNextOffsetWalk ctx inoSize b k ptr n := by
  intro k
  induction k with
  | zero => intro ptr n _; simp [sfNextOffsetWalk, hab.1]
  | succ k ih =>
    intro ptr n hq
    simp only [sfNextOffsetWalk, hab.1, hab.namelen hq, hab.stored hq]
    split_ifs <;> first | rfl | exact ih _ _ (by omega)

/-- The offset a successful walk returns is a tag bound. -/
theorem sfNextOffsetWalk_le : ∀ {data : List UInt8} {k ptr n v : Nat}, n ≤ uint16Max →
    sfNextOffsetWalk ctx inoSize data k ptr n = .ok v → v ≤ uint16Max := by
  intro data k
  induction k with
  | zero =>
    intro ptr n v hn h
    simp only [sfNextOffsetWalk] at h
    split_ifs at h
    cases h
    exact hn
  | succ k ih =>
    intro ptr n v _ h
    obtain ⟨n', hok, hrest⟩ := (sfNextOffsetWalk_succ_ok ctx inoSize).mp h
    exact ih hok.next_le hrest

/-! ## The repairing walk -/

/-- The tag of the entry at `ptr` raised to at least `nextOffset`, as the repair writes it. -/
def sfRaiseTag (data : List UInt8) (ptr nextOffset : Nat) : List UInt8 :=
  if sfEntryStoredOffset data ptr < nextOffset then sfEntryStoreOffset data ptr nextOffset else data

@[simp] theorem length_sfRaiseTag (data : List UInt8) (ptr n : Nat) :
    (sfRaiseTag data ptr n).length = data.length := by
  unfold sfRaiseTag
  split <;> simp

theorem agreeFrom_raiseTag (data : List UInt8) (ptr n : Nat) :
    AgreeFrom (sfRaiseTag data ptr n) data (ptr + 3) := by
  unfold sfRaiseTag
  split
  · exact agreeFrom_storeOffset data ptr n
  · exact ⟨rfl, fun _ _ => rfl⟩

theorem getD_sfRaiseTag_of_ne {data : List UInt8} {ptr n j : Nat} (h₁ : j ≠ ptr + 1) (h₂ : j ≠ ptr + 2) :
    (sfRaiseTag data ptr n).getD j 0 = data.getD j 0 := by
  unfold sfRaiseTag
  split
  · exact getD_sfEntryStoreOffset_of_ne h₁ h₂
  · rfl

@[simp] theorem sfEntryNamelen_raiseTag (data : List UInt8) (ptr n : Nat) :
    sfEntryNamelen (sfRaiseTag data ptr n) ptr = sfEntryNamelen data ptr := by
  unfold sfEntryNamelen
  rw [getD_sfRaiseTag_of_ne (by omega) (by omega)]

/-- The raised tag is the larger of the old tag and the bound. -/
theorem sfEntryStoredOffset_raiseTag {data : List UInt8} {ptr n : Nat} (hp : ptr + 2 < data.length)
    (hn : n ≤ uint16Max) : sfEntryStoredOffset (sfRaiseTag data ptr n) ptr = max (sfEntryStoredOffset data ptr) n := by
  unfold sfRaiseTag
  split
  · rw [sfEntryStoredOffset_storeOffset hp hn]
    omega
  · omega

theorem sfRaiseTag_of_le {data : List UInt8} {ptr n : Nat} (h : n ≤ sfEntryStoredOffset data ptr) :
    sfRaiseTag data ptr n = data :=
  if_neg (Nat.not_lt.mpr h)

/-- The checks the repair makes of an entry before it touches the tag. -/
def RepairChecks (data : List UInt8) (ptr nextOffset : Nat) : Prop :=
  ptr < data.length ∧ 0 < sfEntryNamelen data ptr ∧
    ptr + sfEntrySize inoSize (xfsHasFtype ctx) (sfEntryNamelen data ptr) ≤ data.length ∧
    nextOffset ≤ uint16Max

instance (data : List UInt8) (ptr nextOffset : Nat) :
    Decidable (RepairChecks ctx inoSize data ptr nextOffset) :=
  inferInstanceAs (Decidable (_ ∧ _))

/-- **One step of the repair**, with the checks gathered and the raised tag named. -/
theorem sfRepairWalk_succ (k : Nat) (data : List UInt8) (ptr n : Nat) :
    sfRepairWalk ctx inoSize (k + 1) data ptr n =
      if RepairChecks ctx inoSize data ptr n then
        if max (sfEntryStoredOffset data ptr) n + dir2DataEntsize ctx (sfEntryNamelen data ptr) ≤ uint16Max then
          sfRepairWalk ctx inoSize k (sfRaiseTag data ptr n)
            (ptr + sfEntrySize inoSize (xfsHasFtype ctx) (sfEntryNamelen data ptr))
            (max (sfEntryStoredOffset data ptr) n + dir2DataEntsize ctx (sfEntryNamelen data ptr))
        else (sfRaiseTag data ptr n, .error .e2big)
      else (data, .error .einval) := by
  have hsz := sfEntrySize_ge inoSize (xfsHasFtype ctx) (sfEntryNamelen data ptr)
  -- the source's raised tag `stored < next ? next : stored` is the maximum
  have hmax : (if sfEntryStoredOffset data ptr < n then n else sfEntryStoredOffset data ptr) =
      max (sfEntryStoredOffset data ptr) n := by
    split <;> omega
  by_cases hc : RepairChecks ctx inoSize data ptr n
  · rw [if_pos hc]
    obtain ⟨h₁, h₂, h₃, h₄⟩ := hc
    simp only [sfRepairWalk, hmax]
    rw [if_neg (by omega), if_neg (by omega)]
    by_cases he : max (sfEntryStoredOffset data ptr) n + dir2DataEntsize ctx (sfEntryNamelen data ptr) ≤ uint16Max
    · rw [if_neg (by omega), if_pos he]
      rfl
    · rw [if_pos (by omega), if_neg he]
      rfl
  · rw [if_neg hc]
    unfold RepairChecks at hc
    simp only [sfRepairWalk]
    split
    · rfl
    · rw [if_pos (by omega)]

@[simp] theorem sfRepairWalk_length :
    ∀ k (data : List UInt8) ptr n, (sfRepairWalk ctx inoSize k data ptr n).1.length = data.length := by
  intro k
  induction k with
  | zero => intro data ptr n; rfl
  | succ k ih =>
    intro data ptr n
    rw [sfRepairWalk_succ]
    split_ifs <;> simp [ih]

/-- **The repair writes nothing at or before where it starts.** -/
theorem sfRepairWalk_getD_of_le :
    ∀ k (data : List UInt8) ptr n j, j ≤ ptr →
      (sfRepairWalk ctx inoSize k data ptr n).1.getD j 0 = data.getD j 0 := by
  intro k
  induction k with
  | zero => intro data ptr n j _; rfl
  | succ k ih =>
    intro data ptr n j hj
    have hsz := sfEntrySize_ge inoSize (xfsHasFtype ctx) (sfEntryNamelen data ptr)
    rw [sfRepairWalk_succ]
    split_ifs
    · rw [ih _ _ _ _ (by omega), getD_sfRaiseTag_of_ne (by omega) (by omega)]
    · exact getD_sfRaiseTag_of_ne (by omega) (by omega)
    · rfl

/-- What the repair leaves at the entry it starts from: the same `namelen`, and the tag
raised to the bound. -/
theorem sfRepairWalk_entry {k : Nat} {data : List UInt8} {ptr n : Nat} (hc : RepairChecks ctx inoSize data ptr n) :
    sfEntryNamelen (sfRepairWalk ctx inoSize (k + 1) data ptr n).1 ptr = sfEntryNamelen data ptr ∧
      sfEntryStoredOffset (sfRepairWalk ctx inoSize (k + 1) data ptr n).1 ptr =
        max (sfEntryStoredOffset data ptr) n := by
  have hfit := hc.2.2.1
  have hn := hc.2.2.2
  have hsz := sfEntrySize_ge inoSize (xfsHasFtype ctx) (sfEntryNamelen data ptr)
  have hlen : ptr + 2 < data.length := by omega
  have key : ∀ j, j ≤ ptr + 2 → (sfRepairWalk ctx inoSize (k + 1) data ptr n).1.getD j 0 =
      (sfRaiseTag data ptr n).getD j 0 := by
    intro j hj
    rw [sfRepairWalk_succ, if_pos hc]
    split_ifs
    · exact sfRepairWalk_getD_of_le ctx inoSize k _ _ _ j (by omega)
    · rfl
  constructor
  · unfold sfEntryNamelen
    rw [key ptr (by omega)]
    exact sfEntryNamelen_raiseTag data ptr n
  · have h := sfEntryStoredOffset_raiseTag hlen hn
    unfold sfEntryStoredOffset at h ⊢
    rw [key (ptr + 1) (by omega), key (ptr + 2) (by omega)]
    exact h

/-- **A successful repair leaves tags the checking walk accepts.** -/
theorem sfRepairWalk_ok_checks :
    ∀ k (data : List UInt8) ptr n, (sfRepairWalk ctx inoSize k data ptr n).2 = .ok () →
      ∃ v, sfNextOffsetWalk ctx inoSize (sfRepairWalk ctx inoSize k data ptr n).1 k ptr n = .ok v := by
  intro k
  induction k with
  | zero =>
    intro data ptr n h
    simp only [sfRepairWalk] at h ⊢
    split at h
    · exact ⟨n, by simp [sfNextOffsetWalk, *]⟩
    · cases h
  | succ k ih =>
    intro data ptr n h
    rw [sfRepairWalk_succ] at h
    split_ifs at h with hc he
    obtain ⟨v, hv⟩ := ih _ _ _ h
    obtain ⟨hname, hstored⟩ := sfRepairWalk_entry ctx inoSize (k := k) hc
    have hpos := hc.2.1
    have hfit := hc.2.2.1
    refine ⟨v, (sfNextOffsetWalk_succ_ok ctx inoSize).mpr ⟨_, ⟨?_, ?_, ?_, ?_, he⟩, ?_⟩⟩
    · rw [hname]; exact hpos
    · rw [hname, sfRepairWalk_length]; exact hfit
    · rw [hstored]; omega
    · rw [hname, hstored]
    · rw [hname, sfRepairWalk_succ, if_pos hc, if_pos he]
      exact hv

/-- The tags of the `k` entries of `data'` from `ptr` are those of `data` raised to the running
minimum, which starts at `nextOffset` and after each entry is its tag plus its data-block
size. -/
def RaisedTags (data data' : List UInt8) : Nat → Nat → Nat → Prop
  | 0, _, _ => True
  | k + 1, ptr, nextOffset =>
    sfEntryStoredOffset data' ptr = max (sfEntryStoredOffset data ptr) nextOffset ∧
      RaisedTags data data' k (ptr + sfEntrySize inoSize (xfsHasFtype ctx) (sfEntryNamelen data ptr))
        (sfEntryStoredOffset data' ptr + dir2DataEntsize ctx (sfEntryNamelen data ptr))

/-- The starts of `k` entries from `ptr`, laid end to end by their `namelen`. -/
def sfEntryStarts (data : List UInt8) : Nat → Nat → List Nat
  | 0, _ => []
  | k + 1, ptr =>
    ptr :: sfEntryStarts data k (ptr + sfEntrySize inoSize (xfsHasFtype ctx) (sfEntryNamelen data ptr))

theorem RaisedTags.congr {a b c : List UInt8} {q : Nat} (hab : AgreeFrom a b q) :
    ∀ k ptr n, q ≤ ptr → RaisedTags ctx inoSize a c k ptr n → RaisedTags ctx inoSize b c k ptr n := by
  intro k
  induction k with
  | zero => intro _ _ _ _; trivial
  | succ k ih =>
    intro ptr n hq ⟨hhead, htail⟩
    have hsz := sfEntrySize_ge inoSize (xfsHasFtype ctx) (sfEntryNamelen a ptr)
    rw [hab.stored hq] at hhead
    rw [hab.namelen hq] at htail hsz
    exact ⟨hhead, ih _ _ (by omega) htail⟩

theorem sfEntryStarts_congr {a b : List UInt8} {q : Nat} (hab : AgreeFrom a b q) :
    ∀ k ptr, q ≤ ptr → sfEntryStarts ctx inoSize a k ptr = sfEntryStarts ctx inoSize b k ptr := by
  intro k
  induction k with
  | zero => intro _ _; rfl
  | succ k ih =>
    intro ptr hq
    have hsz := sfEntrySize_ge inoSize (xfsHasFtype ctx) (sfEntryNamelen a ptr)
    simp only [sfEntryStarts, hab.namelen hq]
    rw [ih _ (by rw [← hab.namelen hq]; omega)]

/-- **A successful repair raises each tag to the running minimum.** -/
theorem sfRepairWalk_raised :
    ∀ k (data : List UInt8) ptr n, (sfRepairWalk ctx inoSize k data ptr n).2 = .ok () →
      RaisedTags ctx inoSize data (sfRepairWalk ctx inoSize k data ptr n).1 k ptr n := by
  intro k
  induction k with
  | zero => intro _ _ _ _; trivial
  | succ k ih =>
    intro data ptr n h
    have hsz := sfEntrySize_ge inoSize (xfsHasFtype ctx) (sfEntryNamelen data ptr)
    obtain ⟨-, hstored⟩ := sfRepairWalk_entry ctx inoSize (k := k) (by
      rw [sfRepairWalk_succ] at h
      split_ifs at h with hc
      exact hc)
    rw [sfRepairWalk_succ] at h
    split_ifs at h with hc he
    refine ⟨hstored, ?_⟩
    rw [hstored]
    have hrest := ih _ _ _ h
    rw [sfRepairWalk_succ, if_pos hc, if_pos he]
    exact hrest.congr ctx inoSize (agreeFrom_raiseTag data ptr n) _ _ _ (by omega)

/-- **The repair writes only tag bytes** of the entries it walks. -/
theorem sfRepairWalk_getD_of_not_tag :
    ∀ k (data : List UInt8) ptr n j, (∀ p ∈ sfEntryStarts ctx inoSize data k ptr, j ≠ p + 1 ∧ j ≠ p + 2) →
      (sfRepairWalk ctx inoSize k data ptr n).1.getD j 0 = data.getD j 0 := by
  intro k
  induction k with
  | zero => intro _ _ _ _ _; rfl
  | succ k ih =>
    intro data ptr n j hj
    have hsz := sfEntrySize_ge inoSize (xfsHasFtype ctx) (sfEntryNamelen data ptr)
    have hhead := hj ptr List.mem_cons_self
    rw [sfRepairWalk_succ]
    split_ifs
    · rw [ih _ _ _ _ (fun p hp => hj p (List.mem_cons_of_mem _ (by
        rwa [sfEntryStarts_congr ctx inoSize (agreeFrom_raiseTag data ptr n) _ _ (by omega)] at hp))),
        getD_sfRaiseTag_of_ne hhead.1 hhead.2]
    · exact getD_sfRaiseTag_of_ne hhead.1 hhead.2
    · rfl

/-- **Repairing twice is repairing once**, also when the repair fails part-way. -/
theorem sfRepairWalk_idem :
    ∀ k (data : List UInt8) ptr n,
      sfRepairWalk ctx inoSize k (sfRepairWalk ctx inoSize k data ptr n).1 ptr n =
        sfRepairWalk ctx inoSize k data ptr n := by
  intro k
  induction k with
  | zero => intro _ _ _; rfl
  | succ k ih =>
    intro data ptr n
    by_cases hc : RepairChecks ctx inoSize data ptr n
    · obtain ⟨hname, hstored⟩ := sfRepairWalk_entry ctx inoSize (k := k) hc
      -- the second pass sees the same entry with its tag already raised
      have hc' : RepairChecks ctx inoSize (sfRepairWalk ctx inoSize (k + 1) data ptr n).1 ptr n := by
        obtain ⟨h₁, h₂, h₃, h₄⟩ := hc
        exact ⟨by simpa using h₁, by rwa [hname], by rwa [hname, sfRepairWalk_length], h₄⟩
      have hkeep : sfRaiseTag (sfRepairWalk ctx inoSize (k + 1) data ptr n).1 ptr n =
          (sfRepairWalk ctx inoSize (k + 1) data ptr n).1 := sfRaiseTag_of_le (by rw [hstored]; omega)
      have hmax : max (sfEntryStoredOffset (sfRepairWalk ctx inoSize (k + 1) data ptr n).1 ptr) n =
          max (sfEntryStoredOffset data ptr) n := by
        rw [hstored]
        omega
      rw [sfRepairWalk_succ ctx inoSize k (sfRepairWalk ctx inoSize (k + 1) data ptr n).1 ptr n,
        if_pos hc', hkeep, hname, hmax]
      split_ifs with he
      · have hstep := (sfRepairWalk_succ ctx inoSize k data ptr n).trans (by rw [if_pos hc, if_pos he])
        rw [hstep]
        exact ih _ _ _
      · rw [sfRepairWalk_succ, if_pos hc, if_neg he]
    · have hstep : sfRepairWalk ctx inoSize (k + 1) data ptr n = (data, .error .einval) := by
        rw [sfRepairWalk_succ, if_neg hc]
      rw [hstep]
      exact hstep

/-- **Valid tags are left alone**: where the checking walk passes, the repair changes nothing. -/
theorem sfRepairWalk_of_checks :
    ∀ k (data : List UInt8) ptr n v, n ≤ uint16Max →
      sfNextOffsetWalk ctx inoSize data k ptr n = .ok v → sfRepairWalk ctx inoSize k data ptr n = (data, .ok ()) := by
  intro k
  induction k with
  | zero =>
    intro data ptr n v _ h
    simp only [sfNextOffsetWalk] at h
    split at h
    · cases h
    · simp [sfRepairWalk, *]
  | succ k ih =>
    intro data ptr n v hn h
    obtain ⟨n', hok, hrest⟩ := (sfNextOffsetWalk_succ_ok ctx inoSize).mp h
    have hsz := sfEntrySize_ge inoSize (xfsHasFtype ctx) (sfEntryNamelen data ptr)
    have hmax : max (sfEntryStoredOffset data ptr) n = sfEntryStoredOffset data ptr := by
      have := hok.tag_ge
      omega
    have hc : RepairChecks ctx inoSize data ptr n :=
      ⟨by have := hok.fits; omega, hok.namelen_pos, hok.fits, hn⟩
    rw [sfRepairWalk_succ, if_pos hc, hmax, ← hok.next_eq, if_pos hok.next_le,
      sfRaiseTag_of_le hok.tag_ge]
    exact ih _ _ _ _ hok.next_le hrest

/-- Past a passing entry, the checking walk goes on from the next one. -/
theorem sfNextOffsetWalk_succ_of_entryOk {data : List UInt8} {k ptr n n' : Nat}
    (hok : EntryOk ctx inoSize data ptr n n') :
    sfNextOffsetWalk ctx inoSize data (k + 1) ptr n =
      sfNextOffsetWalk ctx inoSize data k (ptr + sfEntrySize inoSize (xfsHasFtype ctx) (sfEntryNamelen data ptr)) n' := by
  have hsz := sfEntrySize_ge inoSize (xfsHasFtype ctx) (sfEntryNamelen data ptr)
  have := hok.fits
  have := hok.tag_ge
  have := hok.namelen_pos
  have := hok.next_le
  simp only [sfNextOffsetWalk]
  rw [if_neg (by omega), if_neg (by omega), if_neg (by omega), if_neg (by rw [← hok.next_eq]; omega),
    ← hok.next_eq]

theorem EntryOk.append {a : List UInt8} (e : List UInt8) {ptr n n' : Nat}
    (h : EntryOk ctx inoSize a ptr n n') : EntryOk ctx inoSize (a ++ e) ptr n n' := by
  have hsz := sfEntrySize_ge inoSize (xfsHasFtype ctx) (sfEntryNamelen a ptr)
  have hfit := h.fits
  have hname : sfEntryNamelen (a ++ e) ptr = sfEntryNamelen a ptr := by
    unfold sfEntryNamelen
    rw [List.getD_append _ _ _ _ (by omega)]
  have hstored : sfEntryStoredOffset (a ++ e) ptr = sfEntryStoredOffset a ptr := by
    unfold sfEntryStoredOffset
    rw [List.getD_append _ _ _ _ (by omega), List.getD_append _ _ _ _ (by omega)]
  obtain ⟨h₁, h₂, h₃, h₄, h₅⟩ := h
  refine ⟨by rw [hname]; exact h₁, ?_, by rw [hstored]; exact h₃, by rw [hname, hstored]; exact h₄, h₅⟩
  rw [hname, List.length_append]
  omega

/-- **Appending after a walked buffer**: a walk that ends at the end of `a` goes on over what
is appended. -/
theorem sfNextOffsetWalk_append {a : List UInt8} (e : List UInt8) :
    ∀ k ptr n v, sfNextOffsetWalk ctx inoSize a k ptr n = .ok v →
      sfNextOffsetWalk ctx inoSize (a ++ e) (k + 1) ptr n = sfNextOffsetWalk ctx inoSize (a ++ e) 1 a.length v := by
  intro k
  induction k with
  | zero =>
    intro ptr n v h
    simp only [sfNextOffsetWalk] at h
    split at h
    · cases h
    · rename_i hend
      cases h
      rw [Decidable.not_not.mp hend]
  | succ k ih =>
    intro ptr n v h
    obtain ⟨n', hok, hrest⟩ := (sfNextOffsetWalk_succ_ok ctx inoSize).mp h
    have hok' := hok.append ctx inoSize e
    rw [sfNextOffsetWalk_succ_of_entryOk ctx inoSize hok']
    have hname : sfEntryNamelen (a ++ e) ptr = sfEntryNamelen a ptr := by
      have := hok.fits
      have := sfEntrySize_ge inoSize (xfsHasFtype ctx) (sfEntryNamelen a ptr)
      unfold sfEntryNamelen
      rw [List.getD_append _ _ _ _ (by omega)]
    rw [hname]
    exact ih _ _ _ hrest

/-- The checking walk over one last entry that ends the buffer. -/
theorem sfNextOffsetWalk_last {a e : List UInt8} {w : Nat} (hpos : 0 < sfEntryNamelen (a ++ e) a.length)
    (hsize : sfEntrySize inoSize (xfsHasFtype ctx) (sfEntryNamelen (a ++ e) a.length) = e.length)
    (htag : sfEntryStoredOffset (a ++ e) a.length = w) :
    sfNextOffsetWalk ctx inoSize (a ++ e) 1 a.length w =
      if w + dir2DataEntsize ctx (sfEntryNamelen (a ++ e) a.length) ≤ uint16Max then
        .ok (w + dir2DataEntsize ctx (sfEntryNamelen (a ++ e) a.length))
      else .error .e2big := by
  have hsz := sfEntrySize_ge inoSize (xfsHasFtype ctx) (sfEntryNamelen (a ++ e) a.length)
  simp only [sfNextOffsetWalk, List.length_append, hsize, htag]
  rw [if_neg (by omega), if_neg (by omega), if_neg (by omega)]
  by_cases hc : w + dir2DataEntsize ctx (sfEntryNamelen (a ++ e) a.length) ≤ uint16Max
  · rw [if_neg (by omega), if_pos hc, if_neg (by omega)]
  · rw [if_pos (by omega), if_neg hc]

end Walks

/-! ## The walks on whole forks -/

theorem dir2DataFirstOffset_eq (ctx : XfsMountContext) : dir2DataFirstOffset ctx = 96 := by
  unfold dir2DataFirstOffset dir2DataEntsize xfsDir3DataHdrSize xfsDir2DataAlign
  split <;> norm_num

/-- The header fields the paths read: `count`, `i8count`, and the buffer's length. -/
theorem header_congr {a b : List UInt8} (hl : a.length = b.length) (h₀ : a.getD 0 0 = b.getD 0 0)
    (h₁ : a.getD 1 0 = b.getD 1 0) :
    dir2SfHeaderSizeIfValid a = dir2SfHeaderSizeIfValid b ∧ xfsDir2SfInumberSize a = xfsDir2SfInumberSize b ∧
      sfCount a = sfCount b := by
  have hino : xfsDir2SfInumberSize a = xfsDir2SfInumberSize b := by
    unfold xfsDir2SfInumberSize
    rw [h₁]
  refine ⟨?_, hino, by unfold sfCount; rw [h₀]⟩
  unfold dir2SfHeaderSizeIfValid xfsDir2SfHdrSize
  rw [hl, hino]

theorem dir2SfHeaderSizeIfValid_eq {data : List UInt8} {hdrSize : Nat}
    (h : dir2SfHeaderSizeIfValid data = some hdrSize) :
    hdrSize = xfsDir2SfHdrSize data ∧ 2 ≤ hdrSize ∧ hdrSize ≤ data.length := by
  unfold dir2SfHeaderSizeIfValid at h
  split_ifs at h with h₁ h₂
  cases h
  refine ⟨rfl, by unfold xfsDir2SfHdrSize; omega, by omega⟩

/-- The repair keeps the header. -/
theorem sfRepairOffsetTags_header {data : List UInt8} {hdrSize : Nat} (ctx : XfsMountContext)
    (h : dir2SfHeaderSizeIfValid data = some hdrSize) :
    sfRepairOffsetTags data ctx =
      sfRepairWalk ctx (xfsDir2SfInumberSize data) (sfCount data) data hdrSize (dir2DataFirstOffset ctx) ∧
    dir2SfHeaderSizeIfValid (sfRepairOffsetTags data ctx).1 = some hdrSize ∧
      xfsDir2SfInumberSize (sfRepairOffsetTags data ctx).1 = xfsDir2SfInumberSize data ∧
      sfCount (sfRepairOffsetTags data ctx).1 = sfCount data := by
  have hrep : sfRepairOffsetTags data ctx =
      sfRepairWalk ctx (xfsDir2SfInumberSize data) (sfCount data) data hdrSize (dir2DataFirstOffset ctx) := by
    unfold sfRepairOffsetTags
    rw [h]
  obtain ⟨-, h2, -⟩ := dir2SfHeaderSizeIfValid_eq h
  rw [hrep]
  have hframe := sfRepairWalk_getD_of_le ctx (xfsDir2SfInumberSize data) (sfCount data) data hdrSize
    (dir2DataFirstOffset ctx)
  obtain ⟨hh, hino, hcount⟩ := header_congr (sfRepairWalk_length ..) (hframe 0 (by omega)) (hframe 1 (by omega))
  exact ⟨rfl, hh.trans h, hino, hcount⟩

@[simp] theorem sfRepairOffsetTags_length (data : List UInt8) (ctx : XfsMountContext) :
    (sfRepairOffsetTags data ctx).1.length = data.length := by
  unfold sfRepairOffsetTags
  split
  · rfl
  · exact sfRepairWalk_length ..

/-- **What a successful repair does**: it keeps the length, writes only the tag bytes of the
entries, raises each tag to the running minimum, and leaves tags `sf_next_offset_tag`
accepts. -/
theorem sfRepairOffsetTags_spec {data data' : List UInt8} {ctx : XfsMountContext}
    (h : sfRepairOffsetTags data ctx = (data', .ok ())) :
    data'.length = data.length ∧
      (∀ j, (∀ p ∈ sfEntryStarts ctx (xfsDir2SfInumberSize data) data (sfCount data) (xfsDir2SfHdrSize data),
          j ≠ p + 1 ∧ j ≠ p + 2) → data'.getD j 0 = data.getD j 0) ∧
      RaisedTags ctx (xfsDir2SfInumberSize data) data data' (sfCount data) (xfsDir2SfHdrSize data)
        (dir2DataFirstOffset ctx) ∧
      ∃ v, sfNextOffsetTag data' ctx = .ok v := by
  cases hh : dir2SfHeaderSizeIfValid data with
  | none =>
    unfold sfRepairOffsetTags at h
    rw [hh] at h
    cases h
  | some hdrSize =>
    obtain ⟨hrep, hh', hino, hcount⟩ := sfRepairOffsetTags_header ctx hh
    obtain ⟨rfl, -, -⟩ := dir2SfHeaderSizeIfValid_eq hh
    rw [h] at hrep hh' hino hcount
    dsimp only at hh' hino hcount
    have hdata : data' = (sfRepairWalk ctx (xfsDir2SfInumberSize data) (sfCount data) data
        (xfsDir2SfHdrSize data) (dir2DataFirstOffset ctx)).1 := by rw [← hrep]
    have hok : (sfRepairWalk ctx (xfsDir2SfInumberSize data) (sfCount data) data (xfsDir2SfHdrSize data)
        (dir2DataFirstOffset ctx)).2 = .ok () := by rw [← hrep]
    obtain ⟨v, hv⟩ := sfRepairWalk_ok_checks _ _ _ _ _ _ hok
    have hnext : sfNextOffsetTag data' ctx = .ok (UInt16.ofNat v) := by
      unfold sfNextOffsetTag
      rw [hh']
      dsimp only
      rw [hino, hcount, hdata, hv]
      rfl
    refine ⟨?_, fun j hj => ?_, ?_, _, hnext⟩
    · rw [hdata, sfRepairWalk_length]
    · rw [hdata]
      exact sfRepairWalk_getD_of_not_tag _ _ _ _ _ _ j hj
    · rw [hdata]
      exact sfRepairWalk_raised _ _ _ _ _ _ hok

/-- **Repairing twice is repairing once.** -/
theorem sfRepairOffsetTags_idem (data : List UInt8) (ctx : XfsMountContext) :
    sfRepairOffsetTags (sfRepairOffsetTags data ctx).1 ctx = sfRepairOffsetTags data ctx := by
  cases hh : dir2SfHeaderSizeIfValid data with
  | none =>
    have hnone : sfRepairOffsetTags data ctx = (data, .error .einval) := by
      unfold sfRepairOffsetTags
      rw [hh]
    rw [hnone]
    exact hnone
  | some hdrSize =>
    obtain ⟨hrep, hh', hino, hcount⟩ := sfRepairOffsetTags_header ctx hh
    rw [hrep] at hh' hino hcount ⊢
    conv_lhs => unfold sfRepairOffsetTags
    simp only [hh', hino, hcount]
    exact sfRepairWalk_idem _ _ _ _ _ _

/-- **Valid tags are left alone.** -/
theorem sfRepairOffsetTags_of_valid {data : List UInt8} {ctx : XfsMountContext} {v : UInt16}
    (h : sfNextOffsetTag data ctx = .ok v) : sfRepairOffsetTags data ctx = (data, .ok ()) := by
  unfold sfNextOffsetTag at h
  unfold sfRepairOffsetTags
  cases hh : dir2SfHeaderSizeIfValid data with
  | none => rw [hh] at h; cases h
  | some hdrSize =>
    rw [hh] at h
    dsimp only at h ⊢
    cases hw : sfNextOffsetWalk ctx (xfsDir2SfInumberSize data) data (sfCount data) hdrSize
        (dir2DataFirstOffset ctx) with
    | error e => rw [hw] at h; cases h
    | ok w =>
      exact sfRepairWalk_of_checks _ _ _ _ _ _ w (by rw [dir2DataFirstOffset_eq]; decide) hw

/-! ## Adding and removing names -/

/-- **`dir2_sf_addname` fails without touching the inode, or appends the new entry** to the
repaired fork, tagged with the offset `sf_next_offset_tag` gives the repaired fork. -/
theorem dir2SfAddname_cases (ctx : XfsMountContext) (dp : XfsInode) (name : List UInt8) (ino : UInt64)
    (ftype : UInt8) :
    (∃ e, dir2SfAddname ctx dp name ino ftype = (.error e, dp)) ∨
      ∃ copy offVal, sfRepairOffsetTags dp.dataForkLocal ctx = (copy, .ok ()) ∧
        sfNextOffsetTag copy ctx = .ok offVal ∧ (dir2SfAddname ctx dp name ino ftype).1 = .ok () ∧
        (dir2SfAddname ctx dp name ino ftype).2.dataForkLocal = copy.set 0 (copy.getD 0 0 + 1) ++
          sfNewEntry (xfsHasFtype ctx) (xfsDir2SfInumberSize dp.dataForkLocal) name offVal ino ftype := by
  generalize hres : dir2SfAddname ctx dp name ino ftype = res
  unfold dir2SfAddname at hres
  simp only at hres
  split at hres
  · exact .inl ⟨_, hres.symm⟩
  · split_ifs at hres
    -- past the size checks, the repair and the tag it leaves decide the outcome
    all_goals first
      | exact .inl ⟨_, hres.symm⟩
      | (rcases hr : sfRepairOffsetTags dp.dataForkLocal ctx with ⟨copy, _ | _⟩
         · rw [hr] at hres
           exact .inl ⟨_, hres.symm⟩
         · rw [hr] at hres
           cases hn : sfNextOffsetTag copy ctx with
           | error e =>
             simp only [Except.bind, hn] at hres
             exact .inl ⟨e, hres.symm⟩
           | ok offVal =>
             simp only [Except.bind, hn] at hres
             exact .inr ⟨copy, offVal, rfl, hn, by rw [← hres], by rw [← hres]⟩)

/-- A failed addition leaves the inode as it was. -/
theorem dir2SfAddname_error {ctx : XfsMountContext} {dp : XfsInode} {name : List UInt8} {ino : UInt64}
    {ftype : UInt8} {e : Errno} (h : (dir2SfAddname ctx dp name ino ftype).1 = .error e) :
    (dir2SfAddname ctx dp name ino ftype).2 = dp := by
  rcases dir2SfAddname_cases ctx dp name ino ftype with ⟨e', heq⟩ | ⟨copy, offVal, -, -, hok, -⟩
  · rw [heq]
  · rw [hok] at h
    cases h

/-- **`dir2_sf_removename` fails without touching the inode, or leaves a repaired fork.** -/
theorem dir2SfRemovename_cases (ctx : XfsMountContext) (dp : XfsInode) (name : List UInt8) :
    (∃ e, dir2SfRemovename ctx dp name = (.error e, dp)) ∨
      ∃ spliced newData, sfRepairOffsetTags spliced ctx = (newData, .ok ()) ∧
        (dir2SfRemovename ctx dp name).1 = .ok () ∧ (dir2SfRemovename ctx dp name).2.dataForkLocal = newData := by
  generalize hres : dir2SfRemovename ctx dp name = res
  unfold dir2SfRemovename at hres
  simp only at hres
  split at hres
  · exact .inl ⟨_, hres.symm⟩
  · split at hres
    · exact .inl ⟨_, hres.symm⟩
    · -- the repair of the spliced fork decides the outcome
      split at hres
      · exact .inl ⟨_, hres.symm⟩
      · rename_i hrc
        exact .inr ⟨_, _, Prod.ext rfl hrc, by rw [← hres], by rw [← hres]⟩

/-- A failed removal leaves the inode as it was. -/
theorem dir2SfRemovename_error {ctx : XfsMountContext} {dp : XfsInode} {name : List UInt8} {e : Errno}
    (h : (dir2SfRemovename ctx dp name).1 = .error e) : (dir2SfRemovename ctx dp name).2 = dp := by
  rcases dir2SfRemovename_cases ctx dp name with ⟨e', heq⟩ | ⟨spliced, newData, -, hok, -⟩
  · rw [heq]
  · rw [hok] at h
    cases h

theorem xfsDir2SfInumberSize_cases (data : List UInt8) :
    xfsDir2SfInumberSize data = 8 ∨ xfsDir2SfInumberSize data = 4 := by
  unfold xfsDir2SfInumberSize
  split <;> simp

/-- The appended entry, read where it starts: its `namelen`, its tag and its size. -/
theorem sfNewEntry_read (copy : List UInt8) {inoSize : Nat} (hino : inoSize = 8 ∨ inoSize = 4)
    (hasFtype : Bool) {name : List UInt8} (hname : name.length < 256) (offVal : UInt16) (ino : UInt64)
    (ftype : UInt8) :
    sfEntryNamelen (copy ++ sfNewEntry hasFtype inoSize name offVal ino ftype) copy.length = name.length ∧
      sfEntryStoredOffset (copy ++ sfNewEntry hasFtype inoSize name offVal ino ftype) copy.length =
        offVal.toNat ∧
      (sfNewEntry hasFtype inoSize name offVal ino ftype).length = sfEntrySize inoSize hasFtype name.length := by
  have hoff := offVal.toNat_lt
  have hread : ∀ i, (copy ++ sfNewEntry hasFtype inoSize name offVal ino ftype).getD (copy.length + i) 0 =
      (sfNewEntry hasFtype inoSize name offVal ino ftype).getD i 0 := fun i => by
    rw [List.getD_append_right _ _ _ _ (by omega), Nat.add_sub_cancel_left]
  refine ⟨?_, ?_, ?_⟩
  · unfold sfEntryNamelen
    rw [← Nat.add_zero copy.length, hread]
    simp [sfNewEntry, Nat.mod_eq_of_lt hname]
  · unfold sfEntryStoredOffset
    rw [hread, hread]
    simp [sfNewEntry]
    omega
  · rcases hino with rfl | rfl <;> cases hasFtype <;> simp [sfNewEntry, sfEntrySize] <;> omega

/-- **What a successful addition leaves**: the new entry is tagged with the offset
`sf_next_offset_tag` gave the repaired fork, and the new fork's tags are valid exactly when
that entry ends within `UINT16_MAX` (for a count that does not wrap and a name that fits its
length byte). -/
theorem dir2SfAddname_valid {ctx : XfsMountContext} {dp : XfsInode} {name : List UInt8} {ino : UInt64}
    {ftype : UInt8} (h : (dir2SfAddname ctx dp name ino ftype).1 = .ok ())
    (hcount : sfCount dp.dataForkLocal < 255) (hname : 0 < name.length) (hname' : name.length < 256) :
    ∃ copy offVal, sfRepairOffsetTags dp.dataForkLocal ctx = (copy, .ok ()) ∧
      sfNextOffsetTag copy ctx = .ok offVal ∧
      sfEntryStoredOffset (dir2SfAddname ctx dp name ino ftype).2.dataForkLocal dp.dataForkLocal.length =
        offVal.toNat ∧
      sfNextOffsetTag (dir2SfAddname ctx dp name ino ftype).2.dataForkLocal ctx =
        if offVal.toNat + dir2DataEntsize ctx name.length ≤ uint16Max then
          .ok (UInt16.ofNat (offVal.toNat + dir2DataEntsize ctx name.length))
        else .error .e2big := by
  rcases dir2SfAddname_cases ctx dp name ino ftype with ⟨e, heq⟩ | ⟨copy, offVal, hrep, hnext, -, hdata⟩
  · rw [heq] at h
    cases h
  refine ⟨copy, offVal, hrep, hnext, ?_⟩
  obtain ⟨hdrSize, hh⟩ : ∃ hdrSize, dir2SfHeaderSizeIfValid dp.dataForkLocal = some hdrSize := by
    cases hh : dir2SfHeaderSizeIfValid dp.dataForkLocal with
    | none =>
      unfold sfRepairOffsetTags at hrep
      rw [hh] at hrep
      cases hrep
    | some hdrSize => exact ⟨hdrSize, rfl⟩
  obtain ⟨-, hh', hino, hcnt⟩ := sfRepairOffsetTags_header ctx hh
  rw [hrep] at hh' hino hcnt
  dsimp only at hh' hino hcnt
  obtain ⟨rfl, h2, hle⟩ := dir2SfHeaderSizeIfValid_eq hh
  have hlen : copy.length = dp.dataForkLocal.length := by
    rw [← sfRepairOffsetTags_length dp.dataForkLocal ctx, hrep]
  have hino8 := xfsDir2SfInumberSize_cases dp.dataForkLocal
  obtain ⟨rn, rs, rl⟩ := sfNewEntry_read copy hino8 (xfsHasFtype ctx) hname' offVal ino ftype
  -- raising the count changes only byte 0, which no walk reads
  have hag : AgreeFrom (copy.set 0 (copy.getD 0 0 + 1) ++
      sfNewEntry (xfsHasFtype ctx) (xfsDir2SfInumberSize dp.dataForkLocal) name offVal ino ftype)
      (copy ++ sfNewEntry (xfsHasFtype ctx) (xfsDir2SfInumberSize dp.dataForkLocal) name offVal ino ftype) 1 := by
    refine ⟨by simp, fun j hj => ?_⟩
    by_cases hjc : j < copy.length
    · rw [List.getD_append _ _ _ _ (by simpa using hjc), List.getD_append _ _ _ _ hjc]
      simp [List.getD_eq_getElem?_getD, show 0 ≠ j by omega]
    · rw [List.getD_append_right _ _ _ _ (by simpa using hjc), List.getD_append_right _ _ _ _ (by omega)]
      simp
  rw [hdata]
  refine ⟨by rw [← hlen, hag.stored (by omega), rs], ?_⟩
  obtain ⟨w, hw, rfl⟩ : ∃ w, sfNextOffsetWalk ctx (xfsDir2SfInumberSize dp.dataForkLocal) copy
      (sfCount dp.dataForkLocal) (xfsDir2SfHdrSize dp.dataForkLocal) (dir2DataFirstOffset ctx) = .ok w ∧
      offVal = UInt16.ofNat w := by
    unfold sfNextOffsetTag at hnext
    rw [hh', hino, hcnt] at hnext
    dsimp only at hnext
    cases hw : sfNextOffsetWalk ctx (xfsDir2SfInumberSize dp.dataForkLocal) copy (sfCount dp.dataForkLocal)
        (xfsDir2SfHdrSize dp.dataForkLocal) (dir2DataFirstOffset ctx) with
    | error e => rw [hw] at hnext; cases hnext
    | ok w => rw [hw] at hnext; exact ⟨w, rfl, (Except.ok.inj hnext).symm⟩
  have hwle := sfNextOffsetWalk_le ctx _ (by rw [dir2DataFirstOffset_eq]; decide) hw
  have hwnat : (UInt16.ofNat w).toNat = w := by
    unfold uint16Max at hwle
    rw [UInt16.toNat_ofNat_of_lt' (by unfold UInt16.size; omega)]
  rw [hwnat]
  have hc1 : copy.getD 1 0 = dp.dataForkLocal.getD 1 0 := by
    have := sfRepairWalk_getD_of_le ctx (xfsDir2SfInumberSize dp.dataForkLocal) (sfCount dp.dataForkLocal)
      dp.dataForkLocal (xfsDir2SfHdrSize dp.dataForkLocal) (dir2DataFirstOffset ctx) 1 (by omega)
    rw [← (sfRepairOffsetTags_header ctx hh).1, hrep] at this
    exact this
  have hc0 : copy.getD 0 0 = dp.dataForkLocal.getD 0 0 := by
    have := sfRepairWalk_getD_of_le ctx (xfsDir2SfInumberSize dp.dataForkLocal) (sfCount dp.dataForkLocal)
      dp.dataForkLocal (xfsDir2SfHdrSize dp.dataForkLocal) (dir2DataFirstOffset ctx) 0 (by omega)
    rw [← (sfRepairOffsetTags_header ctx hh).1, hrep] at this
    exact this
  set newData := copy.set 0 (copy.getD 0 0 + 1) ++
    sfNewEntry (xfsHasFtype ctx) (xfsDir2SfInumberSize dp.dataForkLocal) name (UInt16.ofNat w) ino ftype
    with hnew
  have hn0 : newData.getD 0 0 = copy.getD 0 0 + 1 := by
    rw [hnew, List.getD_append _ _ _ _ (by simp; omega)]
    simp [List.getD_eq_getElem?_getD, show 0 < copy.length by omega]
  have hn1 : newData.getD 1 0 = dp.dataForkLocal.getD 1 0 := by
    rw [hag.2 1 le_rfl, List.getD_append _ _ _ _ (by omega), hc1]
  have hnino : xfsDir2SfInumberSize newData = xfsDir2SfInumberSize dp.dataForkLocal := by
    unfold xfsDir2SfInumberSize
    rw [hn1]
  have hnlen : newData.length = copy.length +
      (sfNewEntry (xfsHasFtype ctx) (xfsDir2SfInumberSize dp.dataForkLocal) name (UInt16.ofNat w) ino ftype).length := by
    simp [hnew]
  have hnhdr : dir2SfHeaderSizeIfValid newData = some (xfsDir2SfHdrSize dp.dataForkLocal) := by
    unfold dir2SfHeaderSizeIfValid xfsDir2SfHdrSize
    rw [hnino, if_neg (by omega), if_neg (by unfold xfsDir2SfHdrSize at hle; omega)]
  have hncount : sfCount newData = sfCount dp.dataForkLocal + 1 := by
    unfold sfCount at hcount ⊢
    rw [hn0, hc0, UInt8.toNat_add]
    simp only [UInt8.toNat_one]
    omega
  unfold sfNextOffsetTag
  rw [hnhdr]
  dsimp only
  rw [hnino, hncount, sfNextOffsetWalk_congr ctx _ hag _ _ _ (by omega),
    sfNextOffsetWalk_append ctx _ _ _ _ _ _ hw]
  rw [sfNextOffsetWalk_last ctx _ (by rw [rn]; exact hname) (by rw [rn, rl]) (by rw [rs, hwnat]), rn]
  split <;> rfl

/-- On a fork whose tags are valid the repair changes nothing, so the new entry is tagged with
the fork's own next offset. -/
theorem dir2SfAddname_valid_of_valid {ctx : XfsMountContext} {dp : XfsInode} {name : List UInt8}
    {ino : UInt64} {ftype : UInt8} {v : UInt16} (hv : sfNextOffsetTag dp.dataForkLocal ctx = .ok v)
    (h : (dir2SfAddname ctx dp name ino ftype).1 = .ok ()) (hcount : sfCount dp.dataForkLocal < 255)
    (hname : 0 < name.length) (hname' : name.length < 256) :
    sfEntryStoredOffset (dir2SfAddname ctx dp name ino ftype).2.dataForkLocal dp.dataForkLocal.length = v.toNat ∧
      sfNextOffsetTag (dir2SfAddname ctx dp name ino ftype).2.dataForkLocal ctx =
        if v.toNat + dir2DataEntsize ctx name.length ≤ uint16Max then
          .ok (UInt16.ofNat (v.toNat + dir2DataEntsize ctx name.length))
        else .error .e2big := by
  obtain ⟨copy, offVal, hrep, hnext, htag, hvalid⟩ := dir2SfAddname_valid h hcount hname hname'
  rw [sfRepairOffsetTags_of_valid hv] at hrep
  obtain ⟨rfl, -⟩ := Prod.mk.inj hrep
  obtain rfl : offVal = v := Except.ok.inj (hnext.symm.trans hv)
  exact ⟨htag, hvalid⟩

/-- **A successful removal leaves valid tags**: its fork is one the repair accepted. -/
theorem dir2SfRemovename_valid {ctx : XfsMountContext} {dp : XfsInode} {name : List UInt8}
    (h : (dir2SfRemovename ctx dp name).1 = .ok ()) :
    ∃ v, sfNextOffsetTag (dir2SfRemovename ctx dp name).2.dataForkLocal ctx = .ok v := by
  rcases dir2SfRemovename_cases ctx dp name with ⟨e, heq⟩ | ⟨spliced, newData, hrep, -, hdata⟩
  · rw [heq] at h
    cases h
  · rw [hdata]
    exact (sfRepairOffsetTags_spec hrep).2.2.2

/-- **The tag bound is never checked**: on a fork whose one entry `a` is tagged `65500`, which
`sf_next_offset_tag` accepts, adding a ten-byte name succeeds and tags it `65516`; that entry
ends past `UINT16_MAX`, `sf_next_offset_tag` refuses the new fork with `-E2BIG`, and removing
`a` from it fails the same way. -/
theorem dir2SfAddname_tag_overflow :
    let ctx : XfsMountContext := ⟨xfsSbFeatIncompatFtype, 512⟩
    let dp : XfsInode := ⟨[1, 0, 0, 0, 0, 128, 1, 0xFF, 0xDC, 97, 1, 0, 0, 0, 131], 0, 15, false⟩
    let added := dir2SfAddname ctx dp (List.replicate 10 98) 132 1
    sfNextOffsetTag dp.dataForkLocal ctx = .ok 65516 ∧ added.1 = .ok () ∧
      sfEntryStoredOffset added.2.dataForkLocal 15 = 65516 ∧
      sfNextOffsetTag added.2.dataForkLocal ctx = .error .e2big ∧
      (dir2SfRemovename ctx added.2 [97]).1 = .error .e2big := by
  decide

end Wos.XfsSf
