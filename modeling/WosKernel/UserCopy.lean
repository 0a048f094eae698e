import WosKernel.ByteCodec

/-! # Copies between a task's memory and the kernel (platform/sys/usercopy.cpp)

`copy_from_task` and `copy_to_task` move `size` bytes between a task's user addresses
`[user_addr, user_addr + size)` and a kernel buffer.  After `range_valid` has confined the
range below `USER_ADDR_LIMIT`, they walk it in chunks (`copy_chunk`) that end at the next
4 KiB page boundary.  Each chunk goes through one of two paths: the user address itself
when the task's page table is the active one, or `translate` and the kernel's direct map
otherwise.  Before a chunk the copies make sure its page is mapped, or writable for
`copy_to_task`; demand faults and copy-on-write happen inside those calls, and the calls
may fail.  `copy_cstring_from_task` checks no range up front: it cuts each chunk from what is
left of its budget `dst_size - 1`, checks the chunk with `range_valid`, and copies it up to
its first zero byte.

The model keeps the platform calls abstract (`VirtOps`).  The copies rely only on what
`VirtOps.Sound` states: a page reported or made mapped, resp. writable, is mapped.  The
address space is a frame per user page plus physical memory (`AddressSpace`), so the two
paths touch the same bytes exactly when a chunk stays in its page.  A run records every
`copy_fast` call with the address space it saw (`CopyRun`), and the results are stated
over all runs, failing ones included:

* `rangeValid_iff`: what `range_valid` accepts;
* `copyFromTask_confined`, `copyToTask_confined`: every call stays in the range, in one
  page and in the kernel buffer; a call through the direct map touches exactly the
  physical bytes of its user addresses;
* `copyToTask_confirmedWrites`: every store to user memory comes right after the page was
  found or made writable;
* `copyFromTask_ok`, `copyToTask_ok`: a `true` result copied every byte, in order, each
  between user address `user_addr + i` and offset `i`;
* `copyCstringFromTask_confined`, `copyCstringFromTask_ok`: the C-string copy reads only
  chunks of `[user_addr, user_addr + dst_size - 1)`, writes only the buffer's first
  `dst_size` bytes, and a `true` result holds the task's string, cut at the budget, and a
  terminator (`CstringCopied`).
-/

namespace Wos.UserCopy

open ByteCodec

/-- `mm::paging::PAGE_SIZE`. -/
def pageSize : Nat := 4096

/-- `USER_ADDR_LIMIT`. -/
def userAddrLimit : Nat := 0x0000800000000000

/-- `range_valid`, on the code's 64-bit addresses and sizes: `__builtin_add_overflow` fails
when the end needs a 65th bit. -/
def rangeValid (userAddr size : UInt64) : Bool :=
  if size = 0 then decide (userAddr.toNat ≤ userAddrLimit)
  else if 2 ^ 64 ≤ userAddr.toNat + size.toNat then false
  else decide (userAddr.toNat < userAddrLimit) && decide ((userAddr + size).toNat ≤ userAddrLimit)

/-- `copy_chunk`: what is left to copy, cut at the end of the page `userAddr` lies in. -/
def copyChunk (remaining userAddr : Nat) : Nat :=
  let pageOffset := userAddr % pageSize
  let pageRemaining := pageSize - pageOffset
  if remaining < pageRemaining then remaining else pageRemaining

/-! ## The task's memory -/

/-- A task's address space as the copies reach it: the physical frame behind each mapped
4 KiB user page (a large page gives one frame per 4 KiB piece of it), and physical memory
through the kernel's direct map. -/
structure AddressSpace where
  frameOf : Nat → Option Nat
  phys : Nat → UInt8

namespace AddressSpace

/-- `translate`: the frame of the page holding `va`, plus the offset of `va` in its page. -/
def translate (m : AddressSpace) (va : Nat) : Option Nat :=
  (m.frameOf (va / pageSize)).map fun frame => frame * pageSize + va % pageSize

/-- The task's byte at user address `va`, where that is mapped. -/
def byteAt (m : AddressSpace) (va : Nat) : Option UInt8 := (m.translate va).map m.phys

/-- A load from user address `va` in the active address space.  An unmapped page would
fault; the copies only load from pages they have made sure are mapped. -/
def readVirt (m : AddressSpace) (va : Nat) : UInt8 := (m.byteAt va).getD 0

/-- A store of `b` at physical address `pa` through the direct map. -/
def writePhys (m : AddressSpace) (pa : Nat) (b : UInt8) : AddressSpace :=
  { m with phys := Function.update m.phys pa b }

/-- `copy_fast` into the direct map: `bytes` stored from physical address `pa` on. -/
def writePhysRun : AddressSpace → Nat → List UInt8 → AddressSpace
  | m, _, [] => m
  | m, pa, b :: bytes => writePhysRun (m.writePhys pa b) (pa + 1) bytes

/-- `copy_fast` to user addresses in the active address space: each byte is stored where
its address translates. -/
def writeVirtRun : AddressSpace → Nat → List UInt8 → AddressSpace
  | m, _, [] => m
  | m, va, b :: bytes =>
    writeVirtRun (match m.translate va with
      | some pa => m.writePhys pa b
      | none => m) (va + 1) bytes

end AddressSpace

/-- The calls of the virtual-memory layer (platform/mm/virt.hpp) that the copies make.
Demand faults and copy-on-write happen inside the two `ensure` calls; nothing about them
is fixed beyond `VirtOps.Sound`. -/
structure VirtOps where
  /-- `user_page_mapped_now`. -/
  userPageMappedNow : AddressSpace → Nat → Bool
  /-- `ensure_user_page_mapped`: the address space after it, `none` when it fails. -/
  ensureUserPageMapped : AddressSpace → Nat → Option AddressSpace
  /-- `user_page_writable_now`. -/
  userPageWritableNow : AddressSpace → Nat → Bool
  /-- `ensure_user_page_writable`: the address space after it, `none` when it fails. -/
  ensureUserPageWritable : AddressSpace → Nat → Option AddressSpace

/-- What the copies rely on from the virtual-memory layer: a page reported mapped or
writable, or made so, is mapped. -/
structure VirtOps.Sound (ops : VirtOps) : Prop where
  mappedNow : ∀ m va, ops.userPageMappedNow m va = true → (m.frameOf (va / pageSize)).isSome
  ensureMapped : ∀ m va m', ops.ensureUserPageMapped m va = some m' →
    (m'.frameOf (va / pageSize)).isSome
  writableNow : ∀ m va, ops.userPageWritableNow m va = true → (m.frameOf (va / pageSize)).isSome
  ensureWritable : ∀ m va m', ops.ensureUserPageWritable m va = some m' →
    (m'.frameOf (va / pageSize)).isSome

/-- The part of `sched::task::Task` the copies read. -/
structure Task where
  /-- `task.pagemap != nullptr`. -/
  hasPagemap : Bool
  /-- `active_pagemap_is(task.pagemap)`: the task's page table is the loaded one. -/
  active : Bool
  space : AddressSpace

/-! ## Runs -/

/-- How a `copy_fast` call reaches the user side. -/
inductive Path where
  /-- through the user address itself, in the active address space -/
  | direct
  /-- through `translate` and the direct map, from this physical address on -/
  | translated (phys : Nat)

/-- One `copy_fast` call: `len` bytes between user address `user` and offset `kernel` of
the kernel buffer, and the address space the call read, resp. left behind.  For
`copy_cstring_from_task` it is the chunk `memchr` scans, whose bytes before the first zero
`copy_fast` copies. -/
structure CopyCall where
  user : Nat
  kernel : Nat
  len : Nat
  path : Path
  space : AddressSpace

/-- What a copy does that the claim speaks of, in order. -/
inductive Event where
  /-- `user_page_writable_now` or `ensure_user_page_writable` succeeded for `va` -/
  | writableConfirmed (va : Nat)
  | copy (c : CopyCall)

def Event.call? : Event → Option CopyCall
  | .copy c => some c
  | .writableConfirmed _ => none

/-- The outcome of a copy: its result, the address space and the kernel buffer after it,
and its events. -/
structure CopyRun where
  ok : Bool
  space : AddressSpace
  buf : List UInt8
  events : List Event

/-- The `copy_fast` calls of a run. -/
def CopyRun.calls (r : CopyRun) : List CopyCall := r.events.filterMap Event.call?

/-- A run with `evs` before its events. -/
def CopyRun.prepend (evs : List Event) (r : CopyRun) : CopyRun := { r with events := evs ++ r.events }

/-! ## The code -/

/-- The loop of `copy_from_task` from `copied` bytes on, for at most `fuel` more rounds
(`size` rounds are enough: each copies a byte or more, `copyFromTaskLoop_add_fuel`).  Past
`range_valid` no address sum wraps, so the loop runs on `Nat`. -/
def copyFromTaskLoop (ops : VirtOps) (active : Bool) (userAddr size : Nat) (fuel copied : Nat)
    (m : AddressSpace) (out : List UInt8) : CopyRun :=
  if copied < size then
    match fuel with
    | 0 => ⟨false, m, out, []⟩
    | fuel + 1 =>
      let cur := userAddr + copied
      let chunk := copyChunk (size - copied) cur
      if active then
        match (if ops.userPageMappedNow m cur then some m else ops.ensureUserPageMapped m cur) with
        | none => ⟨false, m, out, []⟩
        | some m =>
          let bytes := (List.range chunk).map fun j => m.readVirt (cur + j)
          (copyFromTaskLoop ops active userAddr size fuel (copied + chunk) m
            (overwrite out copied bytes)).prepend [.copy ⟨cur, copied, chunk, .direct, m⟩]
      else
        match ops.ensureUserPageMapped m cur with
        | none => ⟨false, m, out, []⟩
        | some m =>
          match m.translate cur with
          | none => ⟨false, m, out, []⟩
          | some phys =>
            let bytes := (List.range chunk).map fun j => m.phys (phys + j)
            (copyFromTaskLoop ops active userAddr size fuel (copied + chunk) m
              (overwrite out copied bytes)).prepend [.copy ⟨cur, copied, chunk, .translated phys, m⟩]
  else ⟨true, m, out, []⟩

/-- `copy_from_task`; `dst = none` is a null destination. -/
def copyFromTask (ops : VirtOps) (task : Task) (userAddr : UInt64) (dst : Option (List UInt8))
    (size : UInt64) : CopyRun :=
  if size = 0 then ⟨true, task.space, dst.getD [], []⟩
  else
    match dst with
    | none => ⟨false, task.space, [], []⟩
    | some out =>
      if !task.hasPagemap || !rangeValid userAddr size then ⟨false, task.space, out, []⟩
      else copyFromTaskLoop ops task.active userAddr.toNat size.toNat size.toNat 0 task.space out

/-- The loop of `copy_to_task_common` from `copied` bytes on, for at most `fuel` more
rounds. -/
def copyToTaskLoop (ops : VirtOps) (active requireWritable : Bool) (userAddr size : Nat)
    (src : List UInt8) (fuel copied : Nat) (m : AddressSpace) : CopyRun :=
  if copied < size then
    match fuel with
    | 0 => ⟨false, m, src, []⟩
    | fuel + 1 =>
      let cur := userAddr + copied
      let chunk := copyChunk (size - copied) cur
      let bytes := slice src copied chunk
      let activeWritableCopy := requireWritable && active
      let activeMappedWritableCopy := !requireWritable && active
      -- `copy_to_task` makes sure of a writable page first; the mapped variant does not
      let checked : Option (AddressSpace × List Event) :=
        if requireWritable then
          if activeWritableCopy && ops.userPageWritableNow m cur then some (m, [.writableConfirmed cur])
          else (ops.ensureUserPageWritable m cur).map fun m => (m, [.writableConfirmed cur])
        else some (m, [])
      match checked with
      | none => ⟨false, m, src, []⟩
      | some (m, checks) =>
        if activeWritableCopy || (activeMappedWritableCopy && ops.userPageWritableNow m cur) then
          let m := m.writeVirtRun cur bytes
          (copyToTaskLoop ops active requireWritable userAddr size src fuel (copied + chunk) m).prepend
            (checks ++ [.copy ⟨cur, copied, chunk, .direct, m⟩])
        else
          match m.translate cur with
          | none => ⟨false, m, src, checks⟩
          | some phys =>
            let m := m.writePhysRun phys bytes
            (copyToTaskLoop ops active requireWritable userAddr size src fuel (copied + chunk) m).prepend
              (checks ++ [.copy ⟨cur, copied, chunk, .translated phys, m⟩])
  else ⟨true, m, src, []⟩

/-- `copy_to_task_common`; `src = none` is a null source. -/
def copyToTaskCommon (ops : VirtOps) (task : Task) (userAddr : UInt64) (src : Option (List UInt8))
    (size : UInt64) (requireWritable : Bool) : CopyRun :=
  if size = 0 then ⟨true, task.space, src.getD [], []⟩
  else
    match src with
    | none => ⟨false, task.space, [], []⟩
    | some src =>
      if !task.hasPagemap || !rangeValid userAddr size then ⟨false, task.space, src, []⟩
      else
        copyToTaskLoop ops task.active requireWritable userAddr.toNat size.toNat src size.toNat 0
          task.space

/-- `copy_to_task`. -/
def copyToTask (ops : VirtOps) (task : Task) (userAddr : UInt64) (src : Option (List UInt8))
    (size : UInt64) : CopyRun :=
  copyToTaskCommon ops task userAddr src size true

/-- `copy_to_task_mapped`. -/
def copyToTaskMapped (ops : VirtOps) (task : Task) (userAddr : UInt64) (src : Option (List UInt8))
    (size : UInt64) : CopyRun :=
  copyToTaskCommon ops task userAddr src size false

/-- `memchr` for the zero byte in the `len` bytes of a chunk: the offset of the first zero. -/
def memchrNul (bytes : List UInt8) : Option Nat := bytes.findIdx? (· == 0)

/-- The end of a round of `copy_cstring_from_task` that read its chunk `call` as `bytes`: the
bytes before the first zero and the terminator after them, or the whole chunk and then
`next` from the address space and the buffer it left. -/
def cstringRoundEnd (call : CopyCall) (bytes out : List UInt8)
    (next : AddressSpace → List UInt8 → CopyRun) : CopyRun :=
  match memchrNul bytes with
  | some copyLen =>
    ⟨true, call.space,
      overwrite (overwrite out call.kernel (bytes.take copyLen)) (call.kernel + copyLen) [0],
      [.copy call]⟩
  | none => (next call.space (overwrite out call.kernel bytes)).prepend [.copy call]

/-- The loop of `copy_cstring_from_task` from `written` bytes on, for at most `fuel` more
rounds (`dst_size` rounds are enough, `copyCstringFromTaskLoop_add_fuel`).  A round's chunk
ends at the page boundary or where the budget `dst_size - 1 - written` runs out; the cursor
is checked for a 64-bit wrap and the chunk by `range_valid` in every round. -/
def copyCstringFromTaskLoop (ops : VirtOps) (active : Bool) (userAddr dstSize : Nat)
    (fuel written : Nat) (m : AddressSpace) (out : List UInt8) : CopyRun :=
  if written + 1 < dstSize then
    match fuel with
    | 0 => ⟨false, m, out, []⟩
    | fuel + 1 =>
      let cur := userAddr + written
      let chunk := copyChunk (dstSize - 1 - written) cur
      if 2 ^ 64 ≤ cur then ⟨false, m, out, []⟩
      else if !rangeValid (UInt64.ofNat cur) (UInt64.ofNat chunk) || chunk == 0 then
        ⟨false, m, out, []⟩
      else
        let next := copyCstringFromTaskLoop ops active userAddr dstSize fuel (written + chunk)
        if active then
          match (if ops.userPageMappedNow m cur then some m else ops.ensureUserPageMapped m cur) with
          | none => ⟨false, m, out, []⟩
          | some m =>
            cstringRoundEnd ⟨cur, written, chunk, .direct, m⟩
              ((List.range chunk).map fun j => m.readVirt (cur + j)) out next
        else
          match ops.ensureUserPageMapped m cur with
          | none => ⟨false, m, out, []⟩
          | some m =>
            match m.translate cur with
            | none => ⟨false, m, out, []⟩
            | some phys =>
              cstringRoundEnd ⟨cur, written, chunk, .translated phys, m⟩
                ((List.range chunk).map fun j => m.phys (phys + j)) out next
  else ⟨true, m, overwrite out written [0], []⟩

/-- `copy_cstring_from_task` into a buffer of `dst_size` bytes; `dst = none` is a null
destination. -/
def copyCstringFromTask (ops : VirtOps) (task : Task) (userAddr : UInt64)
    (dst : Option (List UInt8)) (dstSize : UInt64) : CopyRun :=
  match dst with
  | none => ⟨false, task.space, [], []⟩
  | some out =>
    if !task.hasPagemap || dstSize = 0 || userAddr = 0 then ⟨false, task.space, out, []⟩
    else
      copyCstringFromTaskLoop ops task.active userAddr.toNat dstSize.toNat dstSize.toNat 0
        task.space out

/-! ## `range_valid` and `copy_chunk` -/

/-- **What `range_valid` accepts**: an empty range at or below `USER_ADDR_LIMIT`, or a
range whose end does not wrap, that starts below the limit and ends at or below it. -/
theorem rangeValid_iff (userAddr size : UInt64) :
    rangeValid userAddr size = true ↔
      (size = 0 ∧ userAddr.toNat ≤ userAddrLimit) ∨
      (userAddr.toNat + size.toNat < 2 ^ 64 ∧ userAddr.toNat < userAddrLimit ∧
        userAddr.toNat + size.toNat ≤ userAddrLimit) := by
  have hlim : userAddrLimit < 2 ^ 64 := by decide
  unfold rangeValid
  by_cases hs : size = 0
  · subst hs
    simp only [if_true, decide_eq_true_eq, UInt64.toNat_zero, Nat.add_zero, true_and]
    omega
  · have hs0 : size.toNat ≠ 0 := fun h => hs (UInt64.toNat_inj.mp h)
    rw [if_neg hs]
    by_cases hov : 2 ^ 64 ≤ userAddr.toNat + size.toNat
    · rw [if_pos hov]
      simp only [Bool.false_eq_true, false_iff, not_or, not_and, hs, false_and, not_false_eq_true,
        true_and]
      omega
    · rw [if_neg hov, UInt64.toNat_add, Nat.mod_eq_of_lt (by omega)]
      simp only [Bool.and_eq_true, decide_eq_true_eq, hs, false_and, false_or]
      omega

theorem rangeValid_end {userAddr size : UInt64} (h : rangeValid userAddr size = true)
    (hs : size ≠ 0) : userAddr.toNat + size.toNat ≤ userAddrLimit := by
  rcases (rangeValid_iff userAddr size).mp h with ⟨h0, _⟩ | ⟨_, _, hend⟩
  · exact absurd h0 hs
  · exact hend

section Chunk

variable {remaining va : Nat}

theorem copyChunk_le : copyChunk remaining va ≤ remaining := by
  simp only [copyChunk]
  split <;> omega

theorem copyChunk_pos (h : 0 < remaining) : 0 < copyChunk remaining va := by
  have : va % pageSize < pageSize := Nat.mod_lt _ (by decide)
  simp only [copyChunk]
  split <;> omega

/-- A chunk never passes the end of the page it starts in. -/
theorem copyChunk_in_page : va % pageSize + copyChunk remaining va ≤ pageSize := by
  have : va % pageSize < pageSize := Nat.mod_lt _ (by decide)
  simp only [copyChunk]
  split <;> omega

end Chunk

/-! ## Addresses within one page -/

section Page

variable {m : AddressSpace} {va pa j : Nat} {bytes : List UInt8}

theorem div_add_of_in_page (h : va % pageSize + j < pageSize) :
    (va + j) / pageSize = va / pageSize := by
  unfold pageSize at *
  omega

theorem mod_add_of_in_page (h : va % pageSize + j < pageSize) :
    (va + j) % pageSize = va % pageSize + j := by
  unfold pageSize at *
  omega

/-- Within a page, translation moves with the address. -/
theorem AddressSpace.translate_add (htr : m.translate va = some pa)
    (h : va % pageSize + j < pageSize) : m.translate (va + j) = some (pa + j) := by
  obtain ⟨frame, hframe, rfl⟩ := Option.map_eq_some_iff.mp htr
  rw [AddressSpace.translate, div_add_of_in_page h, hframe, mod_add_of_in_page h]
  simp only [Option.map_some, Nat.add_assoc]

theorem AddressSpace.isSome_translate_iff : (m.translate va).isSome ↔
    (m.frameOf (va / pageSize)).isSome := by
  simp [AddressSpace.translate]

@[simp] theorem AddressSpace.frameOf_writePhys (b : UInt8) : (m.writePhys pa b).frameOf = m.frameOf :=
  rfl

@[simp] theorem AddressSpace.frameOf_writePhysRun :
    ∀ {m : AddressSpace} {pa : Nat}, (m.writePhysRun pa bytes).frameOf = m.frameOf := by
  induction bytes with
  | nil => intro m pa; rfl
  | cons b bytes ih =>
    intro m pa
    rw [AddressSpace.writePhysRun, ih, AddressSpace.frameOf_writePhys]

theorem AddressSpace.translate_writePhysRun : (m.writePhysRun pa bytes).translate = m.translate := by
  funext va
  simp [AddressSpace.translate]

/-- A run of stores leaves the bytes below it alone. -/
theorem AddressSpace.phys_writePhysRun_of_lt :
    ∀ {m : AddressSpace} {pa q : Nat} {bytes : List UInt8}, q < pa →
      (m.writePhysRun pa bytes).phys q = m.phys q
  | _, _, _, [], _ => rfl
  | m, pa, q, b :: bytes, h => by
    rw [AddressSpace.writePhysRun, AddressSpace.phys_writePhysRun_of_lt (by omega)]
    simp [AddressSpace.writePhys, Function.update, show q ≠ pa by omega]

/-- The stores of a run of bytes land at consecutive physical addresses. -/
theorem AddressSpace.phys_writePhysRun :
    ∀ {m : AddressSpace} {pa : Nat} {bytes : List UInt8} {j : Nat}, j < bytes.length →
      (m.writePhysRun pa bytes).phys (pa + j) = bytes[j]?.getD 0
  | _, _, [], _, h => absurd h (Nat.not_lt_zero _)
  | m, pa, b :: bytes, j, h => by
    rw [AddressSpace.writePhysRun]
    cases j with
    | zero =>
      show ((m.writePhys pa b).writePhysRun (pa + 1) bytes).phys pa = _
      rw [AddressSpace.phys_writePhysRun_of_lt (by omega : pa < pa + 1)]
      simp [AddressSpace.writePhys]
    | succ j =>
      rw [show pa + (j + 1) = pa + 1 + j by omega,
        AddressSpace.phys_writePhysRun (by simpa using h)]
      simp

@[simp] theorem AddressSpace.translate_writePhys (b : UInt8) :
    (m.writePhys pa b).translate = m.translate := rfl

/-- In the active address space, stores that stay in one mapped page are the stores to its
frame. -/
theorem AddressSpace.writeVirtRun_eq : ∀ {m : AddressSpace} {va pa : Nat} {bytes : List UInt8},
    m.translate va = some pa → va % pageSize + bytes.length ≤ pageSize →
      m.writeVirtRun va bytes = m.writePhysRun pa bytes
  | _, _, _, [], _, _ => rfl
  | m, va, pa, [b], htr, _ => by
    rw [AddressSpace.writeVirtRun, htr, AddressSpace.writePhysRun]
    rfl
  | m, va, pa, b :: b' :: bytes, htr, hin => by
    simp only [List.length_cons] at hin
    have hnext : (m.writePhys pa b).translate (va + 1) = some (pa + 1) := by
      rw [AddressSpace.translate_writePhys]
      exact m.translate_add htr (by omega)
    have hmod : (va + 1) % pageSize = va % pageSize + 1 := mod_add_of_in_page (by omega)
    rw [AddressSpace.writeVirtRun, htr, AddressSpace.writePhysRun]
    exact AddressSpace.writeVirtRun_eq hnext (by simp only [List.length_cons]; omega)

/-- Stores that stay in one page put the bytes at the user addresses they were meant for. -/
theorem AddressSpace.byteAt_writePhysRun (htr : m.translate va = some pa)
    (hin : va % pageSize + bytes.length ≤ pageSize) (hj : j < bytes.length) :
    (m.writePhysRun pa bytes).byteAt (va + j) = bytes[j]? := by
  rw [AddressSpace.byteAt, AddressSpace.translate_writePhysRun, m.translate_add htr (by omega),
    Option.map_some, AddressSpace.phys_writePhysRun hj, List.getElem?_eq_getElem hj,
    Option.getD_some]

/-- A load from a mapped page reads the task's byte. -/
theorem AddressSpace.byteAt_of_mapped (h : (m.frameOf (va / pageSize)).isSome)
    (hin : va % pageSize + j < pageSize) : m.byteAt (va + j) = some (m.readVirt (va + j)) := by
  have hmapped : (m.translate (va + j)).isSome := by
    rw [AddressSpace.isSome_translate_iff, div_add_of_in_page hin]
    exact h
  obtain ⟨pa, hpa⟩ := Option.isSome_iff_exists.mp hmapped
  simp [AddressSpace.readVirt, AddressSpace.byteAt, hpa]

end Page

/-! ## What one round does -/

/-- How a round of `copy_from_task`, started in the address space `m`, read its chunk `c`
as `bytes`: by loads from the page it found or made mapped, or through the direct map from
where `translate` put the chunk's first byte. -/
def ReadChunk (ops : VirtOps) (m : AddressSpace) (c : CopyCall) (bytes : List UInt8) : Prop :=
  match c.path with
  | .direct =>
    (ops.userPageMappedNow m c.user = true ∧ c.space = m ∨
        ops.ensureUserPageMapped m c.user = some c.space) ∧
      bytes = (List.range c.len).map fun j => c.space.readVirt (c.user + j)
  | .translated pa =>
    ops.ensureUserPageMapped m c.user = some c.space ∧ c.space.translate c.user = some pa ∧
      bytes = (List.range c.len).map fun j => c.space.phys (pa + j)

/-- How a round of `copy_to_task_common` stored `bytes` as its chunk `c`, from the address
space `m1` its checks left: in the active address space, to a page found or made writable,
or through the direct map from where `translate` put the chunk's first byte. -/
def WroteChunk (ops : VirtOps) (c : CopyCall) (bytes : List UInt8) : Prop :=
  ∃ m1 : AddressSpace,
    match c.path with
    | .direct =>
      (ops.userPageWritableNow m1 c.user = true ∨
          ∃ m0, ops.ensureUserPageWritable m0 c.user = some m1) ∧
        c.space = m1.writeVirtRun c.user bytes
    | .translated pa => m1.translate c.user = some pa ∧ c.space = m1.writePhysRun pa bytes

section Chunks

variable {ops : VirtOps} {m : AddressSpace} {c : CopyCall} {bytes : List UInt8}

theorem ReadChunk.length (h : ReadChunk ops m c bytes) : bytes.length = c.len := by
  unfold ReadChunk at h
  split at h
  · rw [h.2, List.length_map, List.length_range]
  · rw [h.2.2, List.length_map, List.length_range]

theorem ReadChunk.translate {pa : Nat} (h : ReadChunk ops m c bytes)
    (hpath : c.path = .translated pa) : c.space.translate c.user = some pa := by
  unfold ReadChunk at h
  rw [hpath] at h
  exact h.2.1

/-- **A chunk read holds the task's bytes**: under a sound virtual-memory layer, byte `j`
of the chunk is the task's byte at `c.user + j`, on either path. -/
theorem ReadChunk.byteAt (hops : ops.Sound) (h : ReadChunk ops m c bytes)
    (hin : c.user % pageSize + c.len ≤ pageSize) {j : Nat} (hj : j < c.len) :
    c.space.byteAt (c.user + j) = bytes[j]? := by
  unfold ReadChunk at h
  split at h
  · obtain ⟨hmapped, rfl⟩ := h
    have hframe : (c.space.frameOf (c.user / pageSize)).isSome := by
      rcases hmapped with ⟨hnow, hspace⟩ | hensure
      · rw [hspace]
        exact hops.mappedNow _ _ hnow
      · exact hops.ensureMapped _ _ _ hensure
    rw [AddressSpace.byteAt_of_mapped hframe (by omega), List.getElem?_map,
      List.getElem?_range hj, Option.map_some]
  · obtain ⟨_, htr, rfl⟩ := h
    rw [AddressSpace.byteAt, c.space.translate_add htr (by omega), List.getElem?_map,
      List.getElem?_range hj, Option.map_some, Option.map_some]

theorem WroteChunk.translate {pa : Nat} (h : WroteChunk ops c bytes)
    (hpath : c.path = .translated pa) : c.space.translate c.user = some pa := by
  obtain ⟨m1, h⟩ := h
  rw [hpath] at h
  obtain ⟨htr, hspace⟩ := h
  rw [hspace, AddressSpace.translate_writePhysRun, htr]

/-- **A chunk stored lands at its user addresses**: under a sound virtual-memory layer,
after the store the task's byte at `c.user + j` is byte `j` of the chunk, on either
path. -/
theorem WroteChunk.byteAt (hops : ops.Sound) (h : WroteChunk ops c bytes)
    (hlen : bytes.length = c.len) (hin : c.user % pageSize + c.len ≤ pageSize) {j : Nat}
    (hj : j < c.len) : c.space.byteAt (c.user + j) = bytes[j]? := by
  obtain ⟨m1, h⟩ := h
  split at h
  · obtain ⟨hwritable, hspace⟩ := h
    have hframe : (m1.frameOf (c.user / pageSize)).isSome := by
      rcases hwritable with hnow | ⟨m0, hensure⟩
      · exact hops.writableNow _ _ hnow
      · exact hops.ensureWritable _ _ _ hensure
    obtain ⟨pa, hpa⟩ := Option.isSome_iff_exists.mp
      ((AddressSpace.isSome_translate_iff (m := m1)).mpr hframe)
    rw [hspace, AddressSpace.writeVirtRun_eq hpa (by omega)]
    exact AddressSpace.byteAt_writePhysRun hpa (by omega) (by omega)
  · obtain ⟨htr, hspace⟩ := h
    rw [hspace]
    exact AddressSpace.byteAt_writePhysRun htr (by omega) (by omega)

end Chunks

/-! ## The loops, one round at a time -/

section Rounds

variable {ops : VirtOps} {active requireWritable : Bool} {userAddr size fuel copied : Nat}
  {m : AddressSpace} {out src : List UInt8}

@[simp] theorem CopyRun.ok_prepend (evs : List Event) (r : CopyRun) : (r.prepend evs).ok = r.ok :=
  rfl

@[simp] theorem CopyRun.buf_prepend (evs : List Event) (r : CopyRun) :
    (r.prepend evs).buf = r.buf := rfl

@[simp] theorem CopyRun.events_prepend (evs : List Event) (r : CopyRun) :
    (r.prepend evs).events = evs ++ r.events := rfl

theorem CopyRun.calls_prepend (evs : List Event) (r : CopyRun) :
    (r.prepend evs).calls = evs.filterMap Event.call? ++ r.calls := by
  simp [CopyRun.calls, List.filterMap_append]

theorem copyFromTaskLoop_of_ge (h : size ≤ copied) :
    copyFromTaskLoop ops active userAddr size fuel copied m out = ⟨true, m, out, []⟩ := by
  rw [copyFromTaskLoop.eq_def, if_neg (by omega)]

theorem copyFromTaskLoop_zero (h : copied < size) :
    copyFromTaskLoop ops active userAddr size 0 copied m out = ⟨false, m, out, []⟩ := by
  rw [copyFromTaskLoop.eq_def, if_pos h]

/-- **What one round of `copy_from_task` can do**: fail having copied nothing, or read one
chunk of `copy_chunk` bytes at `user_addr + copied` into the buffer at `copied` and go
on. -/
theorem copyFromTaskLoop_succ (hlt : copied < size) :
    (∃ m', copyFromTaskLoop ops active userAddr size (fuel + 1) copied m out =
        ⟨false, m', out, []⟩) ∨
    ∃ c bytes, c.user = userAddr + copied ∧ c.kernel = copied ∧
      c.len = copyChunk (size - copied) (userAddr + copied) ∧ ReadChunk ops m c bytes ∧
      copyFromTaskLoop ops active userAddr size (fuel + 1) copied m out =
        (copyFromTaskLoop ops active userAddr size fuel (copied + c.len) c.space
          (overwrite out copied bytes)).prepend [.copy c] := by
  rw [copyFromTaskLoop.eq_def, if_pos hlt]
  dsimp only
  cases active with
  | false =>
    rw [if_neg Bool.false_ne_true]
    rcases hm : ops.ensureUserPageMapped m (userAddr + copied) with _ | m'
    · exact .inl ⟨m, rfl⟩
    · dsimp only
      rcases htr : m'.translate (userAddr + copied) with _ | pa
      · exact .inl ⟨m', rfl⟩
      · exact .inr ⟨⟨_, _, _, .translated pa, m'⟩, _, rfl, rfl, rfl, ⟨hm, htr, rfl⟩, rfl⟩
  | true =>
    rw [if_pos rfl]
    rcases hm : (if ops.userPageMappedNow m (userAddr + copied) = true then some m
        else ops.ensureUserPageMapped m (userAddr + copied)) with _ | m'
    · exact .inl ⟨m, rfl⟩
    · dsimp only
      refine .inr ⟨⟨_, _, _, .direct, m'⟩, _, rfl, rfl, rfl, ⟨?_, rfl⟩, rfl⟩
      split at hm
      · next hnow => exact .inl ⟨hnow, (Option.some.inj hm).symm⟩
      · exact .inr hm

/-- The events of the check a round of `copy_to_task_common` makes before it stores. -/
def writableChecks (requireWritable : Bool) (va : Nat) : List Event :=
  if requireWritable then [.writableConfirmed va] else []

theorem copyToTaskLoop_of_ge (h : size ≤ copied) :
    copyToTaskLoop ops active requireWritable userAddr size src fuel copied m = ⟨true, m, src, []⟩ := by
  rw [copyToTaskLoop.eq_def, if_neg (by omega)]

theorem copyToTaskLoop_zero (h : copied < size) :
    copyToTaskLoop ops active requireWritable userAddr size src 0 copied m = ⟨false, m, src, []⟩ := by
  rw [copyToTaskLoop.eq_def, if_pos h]

/-- **What one round of `copy_to_task_common` can do**: fail, perhaps after its writable
check, or store one chunk of `copy_chunk` bytes of the source at `user_addr + copied`,
right after the check, and go on. -/
theorem copyToTaskLoop_succ (hlt : copied < size) :
    (∃ m' evs, copyToTaskLoop ops active requireWritable userAddr size src (fuel + 1) copied m =
        ⟨false, m', src, evs⟩ ∧ (evs = [] ∨ evs = writableChecks requireWritable (userAddr + copied))) ∨
    ∃ c, c.user = userAddr + copied ∧ c.kernel = copied ∧
      c.len = copyChunk (size - copied) (userAddr + copied) ∧ WroteChunk ops c (slice src copied c.len) ∧
      copyToTaskLoop ops active requireWritable userAddr size src (fuel + 1) copied m =
        (copyToTaskLoop ops active requireWritable userAddr size src fuel (copied + c.len) c.space).prepend
          (writableChecks requireWritable (userAddr + copied) ++ [.copy c]) := by
  rw [copyToTaskLoop.eq_def, if_pos hlt]
  dsimp only
  cases requireWritable <;> cases active <;>
    simp only [Bool.false_and, Bool.true_and, Bool.and_false, Bool.and_true, Bool.not_false,
      Bool.not_true, Bool.false_or, Bool.or_false, Bool.false_eq_true, if_false, if_true, writableChecks]
  · -- copy_to_task_mapped, another address space: through `translate`
    rcases htr : m.translate (userAddr + copied) with _ | pa
    · exact .inl ⟨m, [], rfl, .inl rfl⟩
    · exact .inr ⟨⟨_, _, _, .translated pa, _⟩, rfl, rfl, rfl, ⟨m, htr, rfl⟩, rfl⟩
  · -- copy_to_task_mapped, active: directly where the page is writable now
    by_cases hw : ops.userPageWritableNow m (userAddr + copied) = true
    · rw [if_pos hw]
      exact .inr ⟨⟨_, _, _, .direct, _⟩, rfl, rfl, rfl, ⟨m, .inl hw, rfl⟩, rfl⟩
    · rw [if_neg hw]
      rcases htr : m.translate (userAddr + copied) with _ | pa
      · exact .inl ⟨m, [], rfl, .inl rfl⟩
      · exact .inr ⟨⟨_, _, _, .translated pa, _⟩, rfl, rfl, rfl, ⟨m, htr, rfl⟩, rfl⟩
  · -- copy_to_task, another address space: make the page writable, then `translate`
    rcases he : ops.ensureUserPageWritable m (userAddr + copied) with _ | m1
    · exact .inl ⟨m, [], rfl, .inl rfl⟩
    · simp only [Option.map_some]
      rcases htr : m1.translate (userAddr + copied) with _ | pa
      · exact .inl ⟨m1, _, rfl, .inr rfl⟩
      · exact .inr ⟨⟨_, _, _, .translated pa, _⟩, rfl, rfl, rfl, ⟨m1, htr, rfl⟩, rfl⟩
  · -- copy_to_task, active: a page writable now, or made writable
    by_cases hw : ops.userPageWritableNow m (userAddr + copied) = true
    · rw [if_pos hw]
      exact .inr ⟨⟨_, _, _, .direct, _⟩, rfl, rfl, rfl, ⟨m, .inl hw, rfl⟩, rfl⟩
    · rw [if_neg hw]
      rcases he : ops.ensureUserPageWritable m (userAddr + copied) with _ | m1
      · exact .inl ⟨m, [], rfl, .inl rfl⟩
      · exact .inr ⟨⟨_, _, _, .direct, _⟩, rfl, rfl, rfl, ⟨m1, .inr ⟨m, he⟩, rfl⟩, rfl⟩
end Rounds

/-! ## What the copies guarantee -/

/-- What the claim asks of each `copy_fast` call of a copy of `size` bytes at `userAddr`:
it works at matching offsets of the user range and of the kernel buffer, moves at least one
byte, stays in one page and below `USER_ADDR_LIMIT`, and on the direct-map path touches
exactly the physical bytes of its user addresses. -/
structure CallConfined (userAddr size : Nat) (c : CopyCall) : Prop where
  user_eq : c.user = userAddr + c.kernel
  kernel_end : c.kernel + c.len ≤ size
  len_pos : 0 < c.len
  in_page : c.user % pageSize + c.len ≤ pageSize
  below_limit : c.user + c.len ≤ userAddrLimit
  translated : ∀ pa, c.path = .translated pa → ∀ j < c.len,
    c.space.translate (c.user + j) = some (pa + j)

/-- Calls that move the kernel offsets `k .. n`, one after the other. -/
def Consecutive : Nat → List CopyCall → Nat → Prop
  | k, [], n => k = n
  | k, c :: cs, n => c.kernel = k ∧ Consecutive (k + c.len) cs n

/-- Every copy comes right after a confirmation that the page it starts in is writable. -/
def ConfirmedWrites : List Event → Prop
  | [] => True
  | .writableConfirmed va :: .copy c :: rest => c.user = va ∧ ConfirmedWrites rest
  | .writableConfirmed _ :: rest => ConfirmedWrites rest
  | .copy _ :: _ => False

theorem Consecutive.exists_cover : ∀ {k n : Nat} {cs : List CopyCall}, Consecutive k cs n →
    ∀ {i : Nat}, k ≤ i → i < n → ∃ c ∈ cs, c.kernel ≤ i ∧ i < c.kernel + c.len
  | k, n, [], h, i, hk, hn => by
    simp only [Consecutive] at h
    omega
  | k, n, c :: cs, ⟨hc, hrest⟩, i, hk, hn => by
    by_cases hi : i < k + c.len
    · exact ⟨c, List.mem_cons_self, by omega, by omega⟩
    · obtain ⟨c', hc', h1, h2⟩ := Consecutive.exists_cover hrest (by omega) hn
      exact ⟨c', List.mem_cons_of_mem _ hc', h1, h2⟩

/-- A round's call is confined: the chunk arithmetic of `copy_chunk`, the chunk's end below
`USER_ADDR_LIMIT` and, on the direct-map path, the translation of the chunk's first byte. -/
theorem CallConfined.of_chunk {userAddr size copied : Nat} {c : CopyCall} (hlt : copied < size)
    (huser : c.user = userAddr + copied) (hkernel : c.kernel = copied)
    (hlen : c.len = copyChunk (size - copied) (userAddr + copied))
    (hlim : userAddr + copied + c.len ≤ userAddrLimit)
    (htr : ∀ pa, c.path = .translated pa → c.space.translate c.user = some pa) :
    CallConfined userAddr size c := by
  have hle : copyChunk (size - copied) (userAddr + copied) ≤ size - copied := copyChunk_le
  have hpos : 0 < copyChunk (size - copied) (userAddr + copied) := copyChunk_pos (by omega)
  have hin : (userAddr + copied) % pageSize + copyChunk (size - copied) (userAddr + copied) ≤
      pageSize := copyChunk_in_page
  refine ⟨by rw [huser, hkernel], by omega, by omega, by rw [huser]; omega, by omega, ?_⟩
  intro pa hpath j hj
  exact c.space.translate_add (htr pa hpath) (by rw [huser]; omega)

/-- A round of a copy whose whole range `range_valid` accepted is confined. -/
theorem CallConfined.of_round {userAddr size copied : Nat} {c : CopyCall}
    (hlim : userAddr + size ≤ userAddrLimit) (hlt : copied < size)
    (huser : c.user = userAddr + copied) (hkernel : c.kernel = copied)
    (hlen : c.len = copyChunk (size - copied) (userAddr + copied))
    (htr : ∀ pa, c.path = .translated pa → c.space.translate c.user = some pa) :
    CallConfined userAddr size c := by
  have hle : c.len ≤ size - copied := hlen ▸ copyChunk_le
  exact CallConfined.of_chunk hlt huser hkernel hlen (by omega) htr

/-! ## Whole loops -/

section Induction

variable {ops : VirtOps} {active requireWritable : Bool} {userAddr size : Nat}

/-- **Induction over a run of `copy_from_task`'s loop**: a property of the run from every
start that holds when the loop is done, when a round fails, and across a round that reads
one chunk holds of every run. -/
theorem copyFromTaskLoop_induct (P : Nat → AddressSpace → List UInt8 → CopyRun → Prop)
    (done : ∀ copied m out, size ≤ copied → P copied m out ⟨true, m, out, []⟩)
    (fail : ∀ copied m m' out, copied < size → P copied m out ⟨false, m', out, []⟩)
    (round : ∀ copied m out c bytes r, copied < size → c.user = userAddr + copied →
      c.kernel = copied → c.len = copyChunk (size - copied) (userAddr + copied) →
      ReadChunk ops m c bytes →
      (∃ fuel, r = copyFromTaskLoop ops active userAddr size fuel (copied + c.len) c.space
        (overwrite out copied bytes)) →
      P (copied + c.len) c.space (overwrite out copied bytes) r →
      P copied m out (r.prepend [.copy c])) :
    ∀ fuel copied m out, P copied m out (copyFromTaskLoop ops active userAddr size fuel copied m out) := by
  intro fuel
  induction fuel with
  | zero =>
    intro copied m out
    by_cases hlt : copied < size
    · rw [copyFromTaskLoop_zero hlt]
      exact fail _ _ _ _ hlt
    · rw [copyFromTaskLoop_of_ge (Nat.le_of_not_lt hlt)]
      exact done _ _ _ (Nat.le_of_not_lt hlt)
  | succ fuel ih =>
    intro copied m out
    by_cases hlt : copied < size
    · rcases @copyFromTaskLoop_succ ops active userAddr size fuel copied m out hlt with
        ⟨m', hr⟩ | ⟨c, bytes, huser, hkernel, hlen, hread, hr⟩
      · rw [hr]
        exact fail _ _ _ _ hlt
      · rw [hr]
        exact round _ _ _ _ _ _ hlt huser hkernel hlen hread ⟨fuel, rfl⟩ (ih _ _ _)
    · rw [copyFromTaskLoop_of_ge (Nat.le_of_not_lt hlt)]
      exact done _ _ _ (Nat.le_of_not_lt hlt)

/-- **Induction over a run of `copy_to_task_common`'s loop**, as `copyFromTaskLoop_induct`:
a failing round may have made its writable check first. -/
theorem copyToTaskLoop_induct {src : List UInt8} (P : Nat → AddressSpace → CopyRun → Prop)
    (done : ∀ copied m, size ≤ copied → P copied m ⟨true, m, src, []⟩)
    (fail : ∀ copied m m' evs, copied < size →
      (evs = [] ∨ evs = writableChecks requireWritable (userAddr + copied)) →
      P copied m ⟨false, m', src, evs⟩)
    (round : ∀ copied m c r, copied < size → c.user = userAddr + copied → c.kernel = copied →
      c.len = copyChunk (size - copied) (userAddr + copied) → WroteChunk ops c (slice src copied c.len) →
      P (copied + c.len) c.space r →
      P copied m (r.prepend (writableChecks requireWritable (userAddr + copied) ++ [.copy c]))) :
    ∀ fuel copied m,
      P copied m (copyToTaskLoop ops active requireWritable userAddr size src fuel copied m) := by
  intro fuel
  induction fuel with
  | zero =>
    intro copied m
    by_cases hlt : copied < size
    · rw [copyToTaskLoop_zero hlt]
      exact fail _ _ _ _ hlt (.inl rfl)
    · rw [copyToTaskLoop_of_ge (Nat.le_of_not_lt hlt)]
      exact done _ _ (Nat.le_of_not_lt hlt)
  | succ fuel ih =>
    intro copied m
    by_cases hlt : copied < size
    · rcases @copyToTaskLoop_succ ops active requireWritable userAddr size fuel copied m src hlt with
        ⟨m', evs, hr, hevs⟩ | ⟨c, huser, hkernel, hlen, hwrote, hr⟩
      · rw [hr]
        exact fail _ _ _ _ hlt hevs
      · rw [hr]
        exact round _ _ _ _ hlt huser hkernel hlen hwrote (ih _ _)
    · rw [copyToTaskLoop_of_ge (Nat.le_of_not_lt hlt)]
      exact done _ _ (Nat.le_of_not_lt hlt)

end Induction

section FromLoop

variable {ops : VirtOps} {active : Bool} {userAddr size : Nat}

theorem calls_prepend_copy (c : CopyCall) (r : CopyRun) :
    (r.prepend [.copy c]).calls = c :: r.calls := by
  simp [CopyRun.calls_prepend, Event.call?]

/-- Every call of `copy_from_task`'s loop is confined, and comes at or after where the loop
started. -/
theorem copyFromTaskLoop_confined (hlim : userAddr + size ≤ userAddrLimit) (fuel copied : Nat)
    (m : AddressSpace) (out : List UInt8) :
    ∀ c ∈ (copyFromTaskLoop ops active userAddr size fuel copied m out).calls,
      CallConfined userAddr size c ∧ copied ≤ c.kernel := by
  refine copyFromTaskLoop_induct (fun copied _ _ r => ∀ c ∈ r.calls,
      CallConfined userAddr size c ∧ copied ≤ c.kernel) ?_ ?_ ?_ fuel copied m out
  · intro copied m out _ c hc
    simp [CopyRun.calls] at hc
  · intro copied m m' out _ c hc
    simp [CopyRun.calls] at hc
  · intro copied m out c0 bytes r hlt huser hkernel hlen hread _ ih c hc
    rw [calls_prepend_copy] at hc
    rcases List.mem_cons.mp hc with rfl | hc
    · exact ⟨CallConfined.of_round hlim hlt huser hkernel hlen fun _ => hread.translate,
        hkernel.ge⟩
    · have := ih c hc
      exact ⟨this.1, by omega⟩

/-- The loop leaves the buffer's length, and the bytes before where it started, alone. -/
theorem copyFromTaskLoop_buf (fuel copied : Nat) (m : AddressSpace) (out : List UInt8) :
    (copyFromTaskLoop ops active userAddr size fuel copied m out).buf.length = out.length ∧
      ∀ i < copied, (copyFromTaskLoop ops active userAddr size fuel copied m out).buf[i]? = out[i]? := by
  refine copyFromTaskLoop_induct (fun copied _ out r => r.buf.length = out.length ∧
      ∀ i < copied, r.buf[i]? = out[i]?) ?_ ?_ ?_ fuel copied m out
  · intro copied m out _
    exact ⟨rfl, fun _ _ => rfl⟩
  · intro copied m m' out _
    exact ⟨rfl, fun _ _ => rfl⟩
  · intro copied m out c bytes r _ _ _ _ _ _ ih
    refine ⟨by rw [CopyRun.buf_prepend, ih.1, length_overwrite], fun i hi => ?_⟩
    rw [CopyRun.buf_prepend, ih.2 i (by omega), getElem?_overwrite_of_lt hi]

/-- **What the loop read is in the buffer**: under a sound virtual-memory layer, each call's
bytes are the task's bytes at its user addresses, as the call saw them. -/
theorem copyFromTaskLoop_read (hops : ops.Sound) (hlim : userAddr + size ≤ userAddrLimit)
    (fuel copied : Nat) (m : AddressSpace) (out : List UInt8) (hout : size ≤ out.length) :
    ∀ c ∈ (copyFromTaskLoop ops active userAddr size fuel copied m out).calls, ∀ j < c.len,
      c.space.byteAt (c.user + j) =
        (copyFromTaskLoop ops active userAddr size fuel copied m out).buf[c.kernel + j]? := by
  refine copyFromTaskLoop_induct (fun _ _ out r => size ≤ out.length → ∀ c ∈ r.calls,
      ∀ j < c.len, c.space.byteAt (c.user + j) = r.buf[c.kernel + j]?) ?_ ?_ ?_ fuel copied m out hout
  · intro copied m out _ _ c hc
    simp [CopyRun.calls] at hc
  · intro copied m m' out _ _ c hc
    simp [CopyRun.calls] at hc
  · intro copied m out c0 bytes r hlt huser hkernel hlen hread ⟨fuel, hr⟩ ih hout c hc j hj
    rw [calls_prepend_copy] at hc
    rcases List.mem_cons.mp hc with rfl | hc
    · have hconf := CallConfined.of_round hlim hlt huser hkernel hlen fun _ => hread.translate
      have hbytes : bytes.length = c.len := hread.length
      have hend := hconf.kernel_end
      have hlater : r.buf[copied + j]? = (overwrite out copied bytes)[copied + j]? := by
        rw [hr]
        exact (copyFromTaskLoop_buf _ _ _ _).2 _ (by omega)
      rw [CopyRun.buf_prepend, hkernel, hlater, getElem?_overwrite_add (by omega) (by omega),
        hread.byteAt hops hconf.in_page hj]
    · exact ih (by rw [length_overwrite]; exact hout) c hc j hj

/-- **A `true` result moved every byte**: the loop's calls cover the kernel offsets from
where it started to `size`, one after the other. -/
theorem copyFromTaskLoop_ok (fuel copied : Nat) (m : AddressSpace) (out : List UInt8)
    (hle : copied ≤ size) (hok : (copyFromTaskLoop ops active userAddr size fuel copied m out).ok = true) :
    Consecutive copied (copyFromTaskLoop ops active userAddr size fuel copied m out).calls size := by
  refine copyFromTaskLoop_induct (fun copied _ _ r => copied ≤ size → r.ok = true →
      Consecutive copied r.calls size) ?_ ?_ ?_ fuel copied m out hle hok
  · intro copied m out hge hle _
    simp only [CopyRun.calls, List.filterMap_nil, Consecutive]
    omega
  · intro copied m m' out _ _ hok
    simp at hok
  · intro copied m out c bytes r hlt _ hkernel hlen _ _ ih _ hok
    have hchunk : c.len ≤ size - copied := hlen ▸ copyChunk_le
    rw [calls_prepend_copy]
    exact ⟨hkernel, ih (by omega) hok⟩

/-- `size - copied` rounds are the whole loop: more fuel changes nothing. -/
theorem copyFromTaskLoop_add_fuel : ∀ (fuel k copied : Nat) (m : AddressSpace) (out : List UInt8),
    size - copied ≤ fuel →
      copyFromTaskLoop ops active userAddr size (fuel + k) copied m out =
        copyFromTaskLoop ops active userAddr size fuel copied m out
  | 0, k, copied, m, out, h => by
    rw [copyFromTaskLoop_of_ge (by omega), copyFromTaskLoop_of_ge (by omega)]
  | fuel + 1, k, copied, m, out, h => by
    by_cases hlt : copied < size
    · have hpos : 0 < copyChunk (size - copied) (userAddr + copied) := copyChunk_pos (by omega)
      have hrest := copyFromTaskLoop_add_fuel fuel k (copied + copyChunk (size - copied) (userAddr + copied))
      rw [Nat.add_right_comm, copyFromTaskLoop.eq_def, if_pos hlt]
      conv_rhs => rw [copyFromTaskLoop.eq_def, if_pos hlt]
      simp only [hrest _ _ (by omega)]
    · rw [copyFromTaskLoop_of_ge (by omega), copyFromTaskLoop_of_ge (by omega)]

end FromLoop

section ToLoop

variable {ops : VirtOps} {active requireWritable : Bool} {userAddr size : Nat} {src : List UInt8}

theorem filterMap_writableChecks (va : Nat) :
    (writableChecks requireWritable va).filterMap Event.call? = [] := by
  unfold writableChecks
  split <;> rfl

theorem calls_prepend_checks (va : Nat) (c : CopyCall) (r : CopyRun) :
    (r.prepend (writableChecks requireWritable va ++ [.copy c])).calls = c :: r.calls := by
  simp [CopyRun.calls_prepend, List.filterMap_append, filterMap_writableChecks, Event.call?]

theorem calls_of_fail {m : AddressSpace} {evs : List Event} {va : Nat}
    (hevs : evs = [] ∨ evs = writableChecks requireWritable va) :
    (⟨false, m, src, evs⟩ : CopyRun).calls = [] := by
  rcases hevs with rfl | rfl
  · rfl
  · exact filterMap_writableChecks va

/-- Every call of `copy_to_task_common`'s loop is confined. -/
theorem copyToTaskLoop_confined (hlim : userAddr + size ≤ userAddrLimit) (fuel copied : Nat)
    (m : AddressSpace) :
    ∀ c ∈ (copyToTaskLoop ops active requireWritable userAddr size src fuel copied m).calls,
      CallConfined userAddr size c ∧ copied ≤ c.kernel := by
  refine copyToTaskLoop_induct (fun copied _ r => ∀ c ∈ r.calls,
      CallConfined userAddr size c ∧ copied ≤ c.kernel) ?_ ?_ ?_ fuel copied m
  · intro copied m _ c hc
    simp [CopyRun.calls] at hc
  · intro copied m m' evs _ hevs c hc
    rw [calls_of_fail hevs] at hc
    exact absurd hc List.not_mem_nil
  · intro copied m c0 r hlt huser hkernel hlen hwrote ih c hc
    rw [calls_prepend_checks] at hc
    rcases List.mem_cons.mp hc with rfl | hc
    · exact ⟨CallConfined.of_round hlim hlt huser hkernel hlen fun _ => hwrote.translate,
        hkernel.ge⟩
    · have := ih c hc
      exact ⟨this.1, by omega⟩

/-- **Each store put the source's bytes at its user addresses**: under a sound
virtual-memory layer, right after each call the task's byte at `c.user + j` is the source
byte at `c.kernel + j`. -/
theorem copyToTaskLoop_wrote (hops : ops.Sound) (hlim : userAddr + size ≤ userAddrLimit)
    (hsrc : size ≤ src.length) (fuel copied : Nat) (m : AddressSpace) :
    ∀ c ∈ (copyToTaskLoop ops active requireWritable userAddr size src fuel copied m).calls,
      ∀ j < c.len, c.space.byteAt (c.user + j) = src[c.kernel + j]? := by
  refine copyToTaskLoop_induct (fun _ _ r => ∀ c ∈ r.calls, ∀ j < c.len,
      c.space.byteAt (c.user + j) = src[c.kernel + j]?) ?_ ?_ ?_ fuel copied m
  · intro copied m _ c hc
    simp [CopyRun.calls] at hc
  · intro copied m m' evs _ hevs c hc
    rw [calls_of_fail hevs] at hc
    exact absurd hc List.not_mem_nil
  · intro copied m c0 r hlt huser hkernel hlen hwrote ih c hc j hj
    rw [calls_prepend_checks] at hc
    rcases List.mem_cons.mp hc with rfl | hc
    · have hconf := CallConfined.of_round hlim hlt huser hkernel hlen fun _ => hwrote.translate
      have hend := hconf.kernel_end
      rw [hwrote.byteAt hops (length_slice (by omega)) hconf.in_page hj, getElem?_slice hj, hkernel]
    · exact ih c hc j hj

/-- **`copy_to_task` stores only to pages it found or made writable**: in every run of its
loop, each call comes right after the confirmation for the address it starts at. -/
theorem copyToTaskLoop_confirmed (fuel copied : Nat) (m : AddressSpace) :
    ConfirmedWrites (copyToTaskLoop ops active true userAddr size src fuel copied m).events := by
  refine copyToTaskLoop_induct (fun _ _ r => ConfirmedWrites r.events) ?_ ?_ ?_ fuel copied m
  · intro copied m _
    trivial
  · intro copied m m' evs _ hevs
    rcases hevs with rfl | rfl <;> trivial
  · intro copied m c r _ huser _ _ _ ih
    exact ⟨huser, ih⟩

theorem copyToTaskLoop_ok (fuel copied : Nat) (m : AddressSpace) (hle : copied ≤ size)
    (hok : (copyToTaskLoop ops active requireWritable userAddr size src fuel copied m).ok = true) :
    Consecutive copied (copyToTaskLoop ops active requireWritable userAddr size src fuel copied m).calls
      size := by
  refine copyToTaskLoop_induct (fun copied _ r => copied ≤ size → r.ok = true →
      Consecutive copied r.calls size) ?_ ?_ ?_ fuel copied m hle hok
  · intro copied m hge hle _
    simp only [CopyRun.calls, List.filterMap_nil, Consecutive]
    omega
  · intro copied m m' evs _ _ _ hok
    simp at hok
  · intro copied m c r hlt _ hkernel hlen _ ih _ hok
    have hchunk : c.len ≤ size - copied := hlen ▸ copyChunk_le
    rw [calls_prepend_checks]
    exact ⟨hkernel, ih (by omega) hok⟩

/-- `size - copied` rounds are the whole loop: more fuel changes nothing. -/
theorem copyToTaskLoop_add_fuel : ∀ (fuel k copied : Nat) (m : AddressSpace),
    size - copied ≤ fuel →
      copyToTaskLoop ops active requireWritable userAddr size src (fuel + k) copied m =
        copyToTaskLoop ops active requireWritable userAddr size src fuel copied m
  | 0, k, copied, m, h => by
    rw [copyToTaskLoop_of_ge (by omega), copyToTaskLoop_of_ge (by omega)]
  | fuel + 1, k, copied, m, h => by
    by_cases hlt : copied < size
    · have hpos : 0 < copyChunk (size - copied) (userAddr + copied) := copyChunk_pos (by omega)
      have hrest := copyToTaskLoop_add_fuel fuel k (copied + copyChunk (size - copied) (userAddr + copied))
      rw [Nat.add_right_comm, copyToTaskLoop.eq_def, if_pos hlt]
      conv_rhs => rw [copyToTaskLoop.eq_def, if_pos hlt]
      simp only [hrest _ (by omega)]
    · rw [copyToTaskLoop_of_ge (by omega), copyToTaskLoop_of_ge (by omega)]

end ToLoop

/-! ## The C-string copy -/

theorem memchrNul_some {bytes : List UInt8} {k : Nat} (h : memchrNul bytes = some k) :
    k < bytes.length ∧ bytes[k]? = some 0 ∧ ∀ j < k, bytes[j]? ≠ some 0 := by
  obtain ⟨hk, hzero, hbefore⟩ := List.findIdx?_eq_some_iff_getElem.mp h
  refine ⟨hk, by rw [List.getElem?_eq_getElem hk]; simpa using hzero, fun j hj => ?_⟩
  rw [List.getElem?_eq_getElem (by omega)]
  simpa using hbefore j hj

theorem memchrNul_none {bytes : List UInt8} (h : memchrNul bytes = none) :
    ∀ j : Nat, bytes[j]? ≠ some 0 := by
  intro j hj
  have := List.findIdx?_eq_none_iff.mp h 0 (List.mem_of_getElem? hj)
  simp at this

/-- A non-empty chunk that `range_valid` accepts ends at or below `USER_ADDR_LIMIT`. -/
theorem rangeValid_ofNat_end {va len : Nat} (hva : va < 2 ^ 64) (hlen : len < 2 ^ 64)
    (h0 : len ≠ 0) (h : rangeValid (UInt64.ofNat va) (UInt64.ofNat len) = true) :
    va + len ≤ userAddrLimit := by
  have hne : UInt64.ofNat len ≠ 0 := fun heq => h0 (by
    have h := congrArg UInt64.toNat heq
    rwa [UInt64.toNat_ofNat', Nat.mod_eq_of_lt hlen, UInt64.toNat_zero] at h)
  have hend := rangeValid_end h hne
  rwa [UInt64.toNat_ofNat', UInt64.toNat_ofNat', Nat.mod_eq_of_lt hva, Nat.mod_eq_of_lt hlen] at hend

section Cstring

variable {ops : VirtOps} {active : Bool} {userAddr dstSize fuel written : Nat} {m : AddressSpace}
  {out : List UInt8} {c : CopyCall} {bytes : List UInt8}

theorem cstringRoundEnd_of_some {next : AddressSpace → List UInt8 → CopyRun} {k : Nat}
    (h : memchrNul bytes = some k) :
    cstringRoundEnd c bytes out next =
      ⟨true, c.space, overwrite (overwrite out c.kernel (bytes.take k)) (c.kernel + k) [0],
        [.copy c]⟩ := by
  rw [cstringRoundEnd, h]

theorem cstringRoundEnd_of_none {next : AddressSpace → List UInt8 → CopyRun}
    (h : memchrNul bytes = none) :
    cstringRoundEnd c bytes out next = (next c.space (overwrite out c.kernel bytes)).prepend [.copy c] := by
  rw [cstringRoundEnd, h]

/-- A round of `copy_cstring_from_task` at `written`, started in the address space `m`, that
read its chunk `c` as `bytes`: the chunk `copy_chunk` cuts from what is left of
`dst_size - 1`, which `range_valid` put below `USER_ADDR_LIMIT`. -/
structure CstringRound (ops : VirtOps) (userAddr dstSize written : Nat) (m : AddressSpace)
    (c : CopyCall) (bytes : List UInt8) : Prop where
  user : c.user = userAddr + written
  kernel : c.kernel = written
  len : c.len = copyChunk (dstSize - 1 - written) (userAddr + written)
  below_limit : userAddr + written + c.len ≤ userAddrLimit
  read : ReadChunk ops m c bytes

theorem CstringRound.confined (h : CstringRound ops userAddr dstSize written m c bytes)
    (hlt : written + 1 < dstSize) : CallConfined userAddr (dstSize - 1) c :=
  CallConfined.of_chunk (by omega) h.user h.kernel h.len h.below_limit fun _ => h.read.translate

/-- The chunk ends before the budget's last byte, the one kept for the terminator. -/
theorem CstringRound.chunk_end (h : CstringRound ops userAddr dstSize written m c bytes)
    (hlt : written + 1 < dstSize) : written + c.len ≤ dstSize - 1 ∧ bytes.length = c.len :=
  ⟨h.kernel ▸ (h.confined hlt).kernel_end, h.read.length⟩

/-- The chunk's bytes are the task's bytes at its user addresses. -/
theorem CstringRound.byteAt (hops : ops.Sound) (h : CstringRound ops userAddr dstSize written m c bytes)
    (hlt : written + 1 < dstSize) {i : Nat} (hlo : written ≤ i) (hhi : i < written + c.len) :
    c.space.byteAt (userAddr + i) = bytes[i - written]? := by
  have hread := h.read.byteAt hops (h.confined hlt).in_page (j := i - written) (by omega)
  rwa [h.user, Nat.add_assoc, Nat.add_sub_cancel' hlo] at hread

theorem copyCstringFromTaskLoop_of_ge (h : dstSize ≤ written + 1) :
    copyCstringFromTaskLoop ops active userAddr dstSize fuel written m out =
      ⟨true, m, overwrite out written [0], []⟩ := by
  rw [copyCstringFromTaskLoop.eq_def, if_neg (by omega)]

theorem copyCstringFromTaskLoop_zero (h : written + 1 < dstSize) :
    copyCstringFromTaskLoop ops active userAddr dstSize 0 written m out = ⟨false, m, out, []⟩ := by
  rw [copyCstringFromTaskLoop.eq_def, if_pos h]

/-- **What one round of `copy_cstring_from_task` can do**: fail having copied nothing, or
read one chunk and end the round with it. -/
theorem copyCstringFromTaskLoop_succ (hlt : written + 1 < dstSize) :
    (∃ m', copyCstringFromTaskLoop ops active userAddr dstSize (fuel + 1) written m out =
        ⟨false, m', out, []⟩) ∨
    ∃ c bytes, CstringRound ops userAddr dstSize written m c bytes ∧
      copyCstringFromTaskLoop ops active userAddr dstSize (fuel + 1) written m out =
        cstringRoundEnd c bytes out
          (copyCstringFromTaskLoop ops active userAddr dstSize fuel (written + c.len)) := by
  rw [copyCstringFromTaskLoop.eq_def, if_pos hlt]
  dsimp only
  by_cases hov : 2 ^ 64 ≤ userAddr + written
  · rw [if_pos hov]
    exact .inl ⟨m, rfl⟩
  rw [if_neg hov]
  split
  · exact .inl ⟨m, rfl⟩
  rename_i hchk
  have hlim : userAddr + written + copyChunk (dstSize - 1 - written) (userAddr + written) ≤
      userAddrLimit := by
    have hin : (userAddr + written) % pageSize +
        copyChunk (dstSize - 1 - written) (userAddr + written) ≤ pageSize := copyChunk_in_page
    simp only [Bool.or_eq_true, Bool.not_eq_true', beq_iff_eq, not_or, Bool.not_eq_false] at hchk
    exact rangeValid_ofNat_end (by omega) (by unfold pageSize at hin; omega) hchk.2 hchk.1
  cases active with
  | false =>
    rw [if_neg Bool.false_ne_true]
    rcases hm : ops.ensureUserPageMapped m (userAddr + written) with _ | m'
    · exact .inl ⟨m, rfl⟩
    · dsimp only
      rcases htr : m'.translate (userAddr + written) with _ | pa
      · exact .inl ⟨m', rfl⟩
      · exact .inr ⟨⟨_, _, _, .translated pa, m'⟩, _, ⟨rfl, rfl, rfl, hlim, ⟨hm, htr, rfl⟩⟩, rfl⟩
  | true =>
    rw [if_pos rfl]
    rcases hm : (if ops.userPageMappedNow m (userAddr + written) = true then some m
        else ops.ensureUserPageMapped m (userAddr + written)) with _ | m'
    · exact .inl ⟨m, rfl⟩
    · dsimp only
      refine .inr ⟨⟨_, _, _, .direct, m'⟩, _, ⟨rfl, rfl, rfl, hlim, ⟨?_, rfl⟩⟩, rfl⟩
      split at hm
      · next hnow => exact .inl ⟨hnow, (Option.some.inj hm).symm⟩
      · exact .inr hm

/-- **Induction over a run of `copy_cstring_from_task`'s loop**: a property of the run from
every start that holds when the budget is used up, when a round fails, when a round finds
the zero, and across a round that copies its whole chunk holds of every run. -/
theorem copyCstringFromTaskLoop_induct (P : Nat → AddressSpace → List UInt8 → CopyRun → Prop)
    (done : ∀ written m out, dstSize ≤ written + 1 →
      P written m out ⟨true, m, overwrite out written [0], []⟩)
    (fail : ∀ written m m' out, written + 1 < dstSize → P written m out ⟨false, m', out, []⟩)
    (found : ∀ written m out c bytes k, written + 1 < dstSize →
      CstringRound ops userAddr dstSize written m c bytes → memchrNul bytes = some k →
      P written m out
        ⟨true, c.space, overwrite (overwrite out written (bytes.take k)) (written + k) [0], [.copy c]⟩)
    (round : ∀ written m out c bytes r, written + 1 < dstSize →
      CstringRound ops userAddr dstSize written m c bytes → memchrNul bytes = none →
      (∃ fuel, r = copyCstringFromTaskLoop ops active userAddr dstSize fuel (written + c.len) c.space
        (overwrite out written bytes)) →
      P (written + c.len) c.space (overwrite out written bytes) r →
      P written m out (r.prepend [.copy c])) :
    ∀ fuel written m out,
      P written m out (copyCstringFromTaskLoop ops active userAddr dstSize fuel written m out) := by
  intro fuel
  induction fuel with
  | zero =>
    intro written m out
    by_cases hlt : written + 1 < dstSize
    · rw [copyCstringFromTaskLoop_zero hlt]
      exact fail _ _ _ _ hlt
    · rw [copyCstringFromTaskLoop_of_ge (by omega)]
      exact done _ _ _ (by omega)
  | succ fuel ih =>
    intro written m out
    by_cases hlt : written + 1 < dstSize
    · rcases @copyCstringFromTaskLoop_succ ops active userAddr dstSize fuel written m out hlt with
        ⟨m', hr⟩ | ⟨c, bytes, hround, hr⟩
      · rw [hr]
        exact fail _ _ _ _ hlt
      · rw [hr]
        rcases hnul : memchrNul bytes with _ | k
        · rw [cstringRoundEnd_of_none hnul, hround.kernel]
          exact round _ _ _ _ _ _ hlt hround hnul ⟨fuel, rfl⟩ (ih _ _ _)
        · rw [cstringRoundEnd_of_some hnul, hround.kernel]
          exact found _ _ _ _ _ _ hlt hround hnul
    · rw [copyCstringFromTaskLoop_of_ge (by omega)]
      exact done _ _ _ (by omega)

theorem calls_single_copy (ok : Bool) (space : AddressSpace) (buf : List UInt8) :
    (⟨ok, space, buf, [.copy c]⟩ : CopyRun).calls = [c] := rfl

/-- Every chunk of `copy_cstring_from_task`'s loop is confined to
`[user_addr, user_addr + dst_size - 1)`, and comes at or after where the loop started. -/
theorem copyCstringFromTaskLoop_confined (fuel written : Nat) (m : AddressSpace)
    (out : List UInt8) :
    ∀ c ∈ (copyCstringFromTaskLoop ops active userAddr dstSize fuel written m out).calls,
      CallConfined userAddr (dstSize - 1) c ∧ written ≤ c.kernel := by
  refine copyCstringFromTaskLoop_induct (fun written _ _ r => ∀ c ∈ r.calls,
      CallConfined userAddr (dstSize - 1) c ∧ written ≤ c.kernel) ?_ ?_ ?_ ?_ fuel written m out
  · intro written m out _ c hc
    simp [CopyRun.calls] at hc
  · intro written m m' out _ c hc
    simp [CopyRun.calls] at hc
  · intro written m out c0 bytes k hlt hround _ c hc
    rw [calls_single_copy, List.mem_singleton] at hc
    subst hc
    exact ⟨hround.confined hlt, hround.kernel.ge⟩
  · intro written m out c0 bytes r hlt hround _ _ ih c hc
    rw [calls_prepend_copy] at hc
    rcases List.mem_cons.mp hc with rfl | hc
    · exact ⟨hround.confined hlt, hround.kernel.ge⟩
    · have := ih c hc
      exact ⟨this.1, by omega⟩

/-- The loop leaves the buffer's length, the bytes before where it started and those from
`dst_size` on alone. -/
theorem copyCstringFromTaskLoop_buf (fuel written : Nat) (m : AddressSpace) (out : List UInt8)
    (hle : written < dstSize) :
    (copyCstringFromTaskLoop ops active userAddr dstSize fuel written m out).buf.length =
        out.length ∧
      ∀ i, i < written ∨ dstSize ≤ i →
        (copyCstringFromTaskLoop ops active userAddr dstSize fuel written m out).buf[i]? = out[i]? := by
  refine copyCstringFromTaskLoop_induct (fun written _ out r => written < dstSize →
      r.buf.length = out.length ∧ ∀ i, i < written ∨ dstSize ≤ i → r.buf[i]? = out[i]?)
    ?_ ?_ ?_ ?_ fuel written m out hle
  · intro written m out _ hle
    refine ⟨length_overwrite _ _ _, fun i hi => ?_⟩
    rcases hi with hi | hi
    · exact getElem?_overwrite_of_lt hi
    · exact getElem?_overwrite_of_ge (by simp; omega)
  · intro written m m' out _ _
    exact ⟨rfl, fun _ _ => rfl⟩
  · intro written m out c bytes k hlt hround hnul _
    obtain ⟨hk, -, -⟩ := memchrNul_some hnul
    obtain ⟨hend, hlen⟩ := hround.chunk_end hlt
    refine ⟨by simp, fun i hi => ?_⟩
    rcases hi with hi | hi
    · rw [getElem?_overwrite_of_lt (by omega), getElem?_overwrite_of_lt hi]
    · rw [getElem?_overwrite_of_ge (by simp; omega), getElem?_overwrite_of_ge (by simp; omega)]
  · intro written m out c bytes r hlt hround _ _ ih _
    obtain ⟨hend, hlen⟩ := hround.chunk_end hlt
    obtain ⟨hl, hkept⟩ := ih (by omega)
    refine ⟨by rw [CopyRun.buf_prepend, hl, length_overwrite], fun i hi => ?_⟩
    rw [CopyRun.buf_prepend, hkept i (by omega)]
    rcases hi with hi | hi
    · exact getElem?_overwrite_of_lt hi
    · exact getElem?_overwrite_of_ge (by omega)

/-- What a `true` result of `copy_cstring_from_task`'s loop from `written` leaves in the run
`r`: a zero at `n`, below `dst_size`, after the task's bytes from `user_addr + written` on,
none of them zero, each read by a call covering it; and the task's byte at `user_addr + n` is
the zero that ended the string, or the buffer is full. -/
structure CstringCopied (userAddr dstSize written : Nat) (r : CopyRun) (n : Nat) : Prop where
  start_le : written ≤ n
  lt_size : n < dstSize
  terminated : r.buf[n]? = some 0
  copied : ∀ i, written ≤ i → i < n → ∃ c ∈ r.calls, c.kernel ≤ i ∧ i < c.kernel + c.len ∧
    c.space.byteAt (userAddr + i) = r.buf[i]? ∧ r.buf[i]? ≠ some 0
  ends : n + 1 = dstSize ∨ ∃ c ∈ r.calls, c.kernel ≤ n ∧ n < c.kernel + c.len ∧
    c.space.byteAt (userAddr + n) = some 0

/-- **A `true` result holds the task's string**: under a sound virtual-memory layer, the loop
from `written` copied the task's bytes up to its first zero, or up to the end of the budget,
and put the terminator after them. -/
theorem copyCstringFromTaskLoop_ok (hops : ops.Sound) (fuel written : Nat) (m : AddressSpace)
    (out : List UInt8) (hle : written < dstSize) (hout : dstSize ≤ out.length)
    (hok : (copyCstringFromTaskLoop ops active userAddr dstSize fuel written m out).ok = true) :
    ∃ n, CstringCopied userAddr dstSize written
      (copyCstringFromTaskLoop ops active userAddr dstSize fuel written m out) n := by
  refine copyCstringFromTaskLoop_induct (fun written _ out r => written < dstSize →
      dstSize ≤ out.length → r.ok = true → ∃ n, CstringCopied userAddr dstSize written r n)
    ?_ ?_ ?_ ?_ fuel written m out hle hout hok
  · -- the budget is used up: the terminator goes in the last byte
    intro written m out hge hle hout _
    exact ⟨written, le_rfl, hle, getElem?_overwrite_add (j := 0) (by simp; omega) (by simp),
      fun i h1 h2 => absurd h2 (by omega), .inl (by omega)⟩
  · intro written m m' out _ _ _ hok
    simp at hok
  · intro written m out c bytes k hlt hround hnul _ hout _
    obtain ⟨hk, hzero, hbefore⟩ := memchrNul_some hnul
    obtain ⟨hend, hlen⟩ := hround.chunk_end hlt
    have hkern := hround.kernel
    have hfit : written + (bytes.take k).length ≤ out.length := by simp; omega
    refine ⟨written + k, ⟨by omega, by omega, ?_, fun i h1 h2 => ?_, ?_⟩⟩
    · exact getElem?_overwrite_add (j := 0) (by simp; omega) (by simp)
    · have hbuf : (overwrite (overwrite out written (bytes.take k)) (written + k) [0])[i]? =
          bytes[i - written]? := by
        rw [getElem?_overwrite_of_lt h2, getElem?_overwrite_of_mem hfit h1 (by simp; omega),
          List.getElem?_take_of_lt (by omega)]
      refine ⟨c, by rw [calls_single_copy]; exact List.mem_singleton_self c, by omega, by omega,
        ?_, ?_⟩
      · rw [hround.byteAt hops hlt h1 (by omega), hbuf]
      · rw [hbuf]
        exact hbefore _ (by omega)
    · refine .inr ⟨c, by rw [calls_single_copy]; exact List.mem_singleton_self c, by omega,
        by omega, ?_⟩
      rw [hround.byteAt hops hlt (by omega) (by omega), Nat.add_sub_cancel_left, hzero]
  · intro written m out c bytes r hlt hround hnul ⟨fuel, hr⟩ ih _ hout hok
    obtain ⟨hend, hlen⟩ := hround.chunk_end hlt
    have hkern := hround.kernel
    have hfit : written + bytes.length ≤ out.length := by omega
    obtain ⟨n, hn⟩ := ih (by omega) (by rw [length_overwrite]; exact hout) hok
    -- later rounds write only from `written + c.len` on, so this round's chunk stays
    have hchunk : ∀ i, written ≤ i → i < written + c.len → r.buf[i]? = bytes[i - written]? := by
      intro i h1 h2
      rw [hr, (copyCstringFromTaskLoop_buf _ _ _ _ (by omega)).2 i (.inl h2),
        getElem?_overwrite_of_mem hfit h1 (by omega)]
    have hn0 := hn.start_le
    refine ⟨n, ⟨by omega, hn.lt_size, hn.terminated, fun i h1 h2 => ?_, ?_⟩⟩
    · rw [CopyRun.buf_prepend, calls_prepend_copy]
      by_cases hi : i < written + c.len
      · refine ⟨c, List.mem_cons_self, by omega, by omega, ?_, ?_⟩
        · rw [hround.byteAt hops hlt h1 hi, hchunk i h1 hi]
        · rw [hchunk i h1 hi]
          exact memchrNul_none hnul _
      · obtain ⟨c', hc', hrest⟩ := hn.copied i (by omega) h2
        exact ⟨c', List.mem_cons_of_mem _ hc', hrest⟩
    · rw [calls_prepend_copy]
      rcases hn.ends with hfull | ⟨c', hc', hrest⟩
      · exact .inl hfull
      · exact .inr ⟨c', List.mem_cons_of_mem _ hc', hrest⟩

/-- `dst_size - 1 - written` rounds are the whole loop: more fuel changes nothing. -/
theorem copyCstringFromTaskLoop_add_fuel : ∀ (fuel k written : Nat) (m : AddressSpace)
    (out : List UInt8), dstSize - (written + 1) ≤ fuel →
      copyCstringFromTaskLoop ops active userAddr dstSize (fuel + k) written m out =
        copyCstringFromTaskLoop ops active userAddr dstSize fuel written m out
  | 0, k, written, m, out, h => by
    rw [copyCstringFromTaskLoop_of_ge (by omega), copyCstringFromTaskLoop_of_ge (by omega)]
  | fuel + 1, k, written, m, out, h => by
    by_cases hlt : written + 1 < dstSize
    · have hpos : 0 < copyChunk (dstSize - 1 - written) (userAddr + written) :=
        copyChunk_pos (by omega)
      have hrest : copyCstringFromTaskLoop ops active userAddr dstSize (fuel + k)
            (written + copyChunk (dstSize - 1 - written) (userAddr + written)) =
          copyCstringFromTaskLoop ops active userAddr dstSize fuel
            (written + copyChunk (dstSize - 1 - written) (userAddr + written)) := by
        funext m out
        exact copyCstringFromTaskLoop_add_fuel fuel k _ m out (by omega)
      rw [Nat.add_right_comm, copyCstringFromTaskLoop.eq_def, if_pos hlt]
      conv_rhs => rw [copyCstringFromTaskLoop.eq_def, if_pos hlt]
      simp only [hrest]
    · rw [copyCstringFromTaskLoop_of_ge (by omega), copyCstringFromTaskLoop_of_ge (by omega)]

end Cstring

/-! ## `copy_from_task` and `copy_to_task` -/

section Copies

variable (ops : VirtOps) (task : Task) (userAddr size : UInt64)

/-- **`copy_from_task` stays in its range**: in every run, failing ones included, every
`copy_fast` call is confined. -/
theorem copyFromTask_confined (dst : List UInt8) :
    ∀ c ∈ (copyFromTask ops task userAddr (some dst) size).calls,
      CallConfined userAddr.toNat size.toNat c := by
  simp only [copyFromTask]
  split_ifs with h0 hcheck
  · simp [CopyRun.calls]
  · simp [CopyRun.calls]
  · have hvalid : rangeValid userAddr size = true := by simp at hcheck; exact hcheck.2
    exact fun c hc => (copyFromTaskLoop_confined (rangeValid_end hvalid h0) _ _ _ _ c hc).1

theorem copyFromTask_buf_length (dst : List UInt8) :
    (copyFromTask ops task userAddr (some dst) size).buf.length = dst.length := by
  simp only [copyFromTask]
  split_ifs
  · rfl
  · rfl
  · exact (copyFromTaskLoop_buf _ _ _ _).1

/-- **A `true` result of `copy_from_task` copied every byte in order**: under a sound
virtual-memory layer, byte `i` of the destination is the task's byte at `user_addr + i`,
read by the call that covers offset `i`. -/
theorem copyFromTask_ok {ops : VirtOps} (hops : ops.Sound) (dst : List UInt8)
    (hdst : size.toNat ≤ dst.length) (hok : (copyFromTask ops task userAddr (some dst) size).ok = true) :
    ∀ i < size.toNat, ∃ c ∈ (copyFromTask ops task userAddr (some dst) size).calls,
      c.kernel ≤ i ∧ i < c.kernel + c.len ∧
        c.space.byteAt (userAddr.toNat + i) = (copyFromTask ops task userAddr (some dst) size).buf[i]? := by
  intro i hi
  have hconf := copyFromTask_confined ops task userAddr size dst
  revert hok hconf
  simp only [copyFromTask]
  split_ifs with h0 hcheck
  · exact absurd hi (by simp [h0])
  · simp
  · intro hok hconf
    have hvalid : rangeValid userAddr size = true := by simp at hcheck; exact hcheck.2
    have hlim := rangeValid_end hvalid h0
    obtain ⟨c, hc, hlo, hhi⟩ := (copyFromTaskLoop_ok _ _ _ _ (Nat.zero_le _) hok).exists_cover
      (Nat.zero_le i) hi
    refine ⟨c, hc, hlo, hhi, ?_⟩
    have hread := copyFromTaskLoop_read hops hlim _ _ _ _ hdst c hc (i - c.kernel) (by omega)
    rwa [(hconf c hc).user_eq, Nat.add_assoc, Nat.add_sub_cancel' hlo] at hread

/-- **`copy_to_task` stays in its range**: in every run every `copy_fast` call is
confined. -/
theorem copyToTask_confined (src : List UInt8) :
    ∀ c ∈ (copyToTask ops task userAddr (some src) size).calls,
      CallConfined userAddr.toNat size.toNat c := by
  simp only [copyToTask, copyToTaskCommon]
  split_ifs with h0 hcheck
  · simp [CopyRun.calls]
  · simp [CopyRun.calls]
  · have hvalid : rangeValid userAddr size = true := by simp at hcheck; exact hcheck.2
    exact fun c hc => (copyToTaskLoop_confined (rangeValid_end hvalid h0) _ _ _ c hc).1

/-- **`copy_to_task` stores only to pages it found or made writable.** -/
theorem copyToTask_confirmedWrites (src : List UInt8) :
    ConfirmedWrites (copyToTask ops task userAddr (some src) size).events := by
  simp only [copyToTask, copyToTaskCommon]
  split_ifs
  · trivial
  · trivial
  · exact copyToTaskLoop_confirmed _ _ _

/-- **A `true` result of `copy_to_task` copied every byte in order**: under a sound
virtual-memory layer, the task's byte at `user_addr + i` became source byte `i` when the
call covering offset `i` stored it. -/
theorem copyToTask_ok {ops : VirtOps} (hops : ops.Sound) (src : List UInt8)
    (hsrc : size.toNat ≤ src.length) (hok : (copyToTask ops task userAddr (some src) size).ok = true) :
    ∀ i < size.toNat, ∃ c ∈ (copyToTask ops task userAddr (some src) size).calls,
      c.kernel ≤ i ∧ i < c.kernel + c.len ∧ c.space.byteAt (userAddr.toNat + i) = src[i]? := by
  intro i hi
  have hconf := copyToTask_confined ops task userAddr size src
  revert hok hconf
  simp only [copyToTask, copyToTaskCommon]
  split_ifs with h0 hcheck
  · exact absurd hi (by simp [h0])
  · simp
  · intro hok hconf
    have hvalid : rangeValid userAddr size = true := by simp at hcheck; exact hcheck.2
    have hlim := rangeValid_end hvalid h0
    obtain ⟨c, hc, hlo, hhi⟩ := (copyToTaskLoop_ok _ _ _ (Nat.zero_le _) hok).exists_cover
      (Nat.zero_le i) hi
    refine ⟨c, hc, hlo, hhi, ?_⟩
    have hwrote := copyToTaskLoop_wrote hops hlim hsrc _ _ _ c hc (i - c.kernel) (by omega)
    rwa [(hconf c hc).user_eq, Nat.add_assoc, Nat.add_sub_cancel' hlo] at hwrote

/-- **`copy_cstring_from_task` stays in its range**: in every run, failing ones included, every
chunk it reads lies in `[user_addr, user_addr + dst_size - 1)`, in one page and below
`USER_ADDR_LIMIT`, and the buffer from `dst_size` on is left alone. -/
theorem copyCstringFromTask_confined (dst : List UInt8) :
    (∀ c ∈ (copyCstringFromTask ops task userAddr (some dst) size).calls,
        CallConfined userAddr.toNat (size.toNat - 1) c) ∧
      ∀ i, size.toNat ≤ i → (copyCstringFromTask ops task userAddr (some dst) size).buf[i]? = dst[i]? := by
  simp only [copyCstringFromTask]
  split_ifs with hcheck
  · exact ⟨by simp [CopyRun.calls], fun _ _ => rfl⟩
  · have h0 : size ≠ 0 := fun h => hcheck (by simp [h])
    have hpos : 0 < size.toNat := Nat.pos_of_ne_zero fun h => h0 (UInt64.toNat_inj.mp h)
    exact ⟨fun c hc => (copyCstringFromTaskLoop_confined _ _ _ _ c hc).1,
      fun i hi => (copyCstringFromTaskLoop_buf _ _ _ _ hpos).2 i (.inr hi)⟩

/-- **A `true` result of `copy_cstring_from_task` holds the task's string**: under a sound
virtual-memory layer, the buffer holds the task's bytes from `user_addr` on up to the first
zero, or up to `dst_size - 1` of them, and the terminator after them. -/
theorem copyCstringFromTask_ok {ops : VirtOps} (hops : ops.Sound) (dst : List UInt8)
    (hdst : size.toNat ≤ dst.length)
    (hok : (copyCstringFromTask ops task userAddr (some dst) size).ok = true) :
    ∃ n, CstringCopied userAddr.toNat size.toNat 0 (copyCstringFromTask ops task userAddr (some dst) size) n := by
  revert hok
  simp only [copyCstringFromTask]
  split_ifs with hcheck
  · simp
  · have h0 : size ≠ 0 := fun h => hcheck (by simp [h])
    have hpos : 0 < size.toNat := Nat.pos_of_ne_zero fun h => h0 (UInt64.toNat_inj.mp h)
    exact copyCstringFromTaskLoop_ok hops _ _ _ _ hpos hdst

end Copies

/-! ## The confinement of user copies -/

/-- **User-copy confinement.**  `range_valid` accepts exactly the ranges that end at or
below `USER_ADDR_LIMIT` without wrapping.  Under a sound virtual-memory layer, every run
of `copy_from_task` and of `copy_to_task` has every `copy_fast` call in the range, in one
page and in the kernel buffer of `size` bytes.  A call through the direct map touches
exactly the physical bytes of its user addresses, and `copy_to_task` stores only right
after the page was found or made writable.  A `true` result copied every byte in order:
destination byte `i` is the task's byte at `user_addr + i`, resp. that byte became
source byte `i`.  `copy_cstring_from_task` into a buffer of `size` bytes reads only chunks
of `[user_addr, user_addr + size - 1)`, each in one page, and writes nothing from byte
`size` on; a `true` result holds the task's string up to its zero, or its first `size - 1`
bytes, and a terminator. -/
theorem usercopy_confinement (ops : VirtOps) (hops : ops.Sound) (task : Task)
    (userAddr size : UInt64) :
    (rangeValid userAddr size = true ↔
      (size = 0 ∧ userAddr.toNat ≤ userAddrLimit) ∨
      (userAddr.toNat + size.toNat < 2 ^ 64 ∧ userAddr.toNat < userAddrLimit ∧
        userAddr.toNat + size.toNat ≤ userAddrLimit)) ∧
    (∀ dst : List UInt8, size.toNat ≤ dst.length →
      (∀ c ∈ (copyFromTask ops task userAddr (some dst) size).calls,
        CallConfined userAddr.toNat size.toNat c) ∧
      (copyFromTask ops task userAddr (some dst) size).buf.length = dst.length ∧
      ((copyFromTask ops task userAddr (some dst) size).ok = true →
        ∀ i < size.toNat, ∃ c ∈ (copyFromTask ops task userAddr (some dst) size).calls,
          c.kernel ≤ i ∧ i < c.kernel + c.len ∧
            c.space.byteAt (userAddr.toNat + i) =
              (copyFromTask ops task userAddr (some dst) size).buf[i]?)) ∧
    (∀ src : List UInt8, size.toNat ≤ src.length →
      (∀ c ∈ (copyToTask ops task userAddr (some src) size).calls,
        CallConfined userAddr.toNat size.toNat c) ∧
      ConfirmedWrites (copyToTask ops task userAddr (some src) size).events ∧
      ((copyToTask ops task userAddr (some src) size).ok = true →
        ∀ i < size.toNat, ∃ c ∈ (copyToTask ops task userAddr (some src) size).calls,
          c.kernel ≤ i ∧ i < c.kernel + c.len ∧ c.space.byteAt (userAddr.toNat + i) = src[i]?)) ∧
    (∀ dst : List UInt8, size.toNat ≤ dst.length →
      (∀ c ∈ (copyCstringFromTask ops task userAddr (some dst) size).calls,
        CallConfined userAddr.toNat (size.toNat - 1) c) ∧
      (∀ i, size.toNat ≤ i → (copyCstringFromTask ops task userAddr (some dst) size).buf[i]? = dst[i]?) ∧
      ((copyCstringFromTask ops task userAddr (some dst) size).ok = true →
        ∃ n, CstringCopied userAddr.toNat size.toNat 0
          (copyCstringFromTask ops task userAddr (some dst) size) n)) :=
  ⟨rangeValid_iff userAddr size,
    fun dst hdst => ⟨copyFromTask_confined ops task userAddr size dst,
      copyFromTask_buf_length ops task userAddr size dst,
      copyFromTask_ok task userAddr size hops dst hdst⟩,
    fun src hsrc => ⟨copyToTask_confined ops task userAddr size src,
      copyToTask_confirmedWrites ops task userAddr size src,
      copyToTask_ok task userAddr size hops src hsrc⟩,
    fun dst hdst => ⟨(copyCstringFromTask_confined ops task userAddr size dst).1,
      (copyCstringFromTask_confined ops task userAddr size dst).2,
      copyCstringFromTask_ok task userAddr size hops dst hdst⟩⟩

/-- A virtual-memory layer that reports a page mapped and writable exactly when it has a
frame, and maps nothing new. -/
def framesOnlyOps : VirtOps where
  userPageMappedNow m va := (m.frameOf (va / pageSize)).isSome
  ensureUserPageMapped m va := if (m.frameOf (va / pageSize)).isSome then some m else none
  userPageWritableNow m va := (m.frameOf (va / pageSize)).isSome
  ensureUserPageWritable m va := if (m.frameOf (va / pageSize)).isSome then some m else none

theorem framesOnlyOps_sound : framesOnlyOps.Sound where
  mappedNow _ _ h := h
  ensureMapped m va m' h := by
    simp only [framesOnlyOps] at h
    split at h
    · next hmapped => exact Option.some.inj h ▸ hmapped
    · exact absurd h (by simp)
  writableNow _ _ h := h
  ensureWritable m va m' h := by
    simp only [framesOnlyOps] at h
    split at h
    · next hmapped => exact Option.some.inj h ▸ hmapped
    · exact absurd h (by simp)

/-- An active task whose every page is mapped to the frame of the same number; its bytes
below `4100` are `65`, and the others zero. -/
def identityTask : Task := ⟨true, true, ⟨some, fun a => if a < 4100 then 65 else 0⟩⟩

/-- In `identityTask`, `copy_from_task` and `copy_to_task` of 8 bytes at `4092` and
`copy_cstring_from_task` of the string at `4090` into 16 bytes succeed, each in two calls on
either side of the page boundary at `4096`: the bytes read are the task's, each store is
confined, and the string's ten bytes and its terminator are copied. -/
theorem usercopy_confinement_two_pages :
    framesOnlyOps.Sound ∧
      (copyFromTask framesOnlyOps identityTask 4092 (some (List.replicate 8 0)) 8).ok = true ∧
      (copyToTask framesOnlyOps identityTask 4092 (some (List.replicate 8 7)) 8).ok = true ∧
      (copyCstringFromTask framesOnlyOps identityTask 4090 (some (List.replicate 16 1)) 16).ok = true ∧
      (∀ i < 8, ∃ c ∈ (copyFromTask framesOnlyOps identityTask 4092 (some (List.replicate 8 0)) 8).calls,
        c.kernel ≤ i ∧ i < c.kernel + c.len ∧ c.space.byteAt (4092 + i) =
          (copyFromTask framesOnlyOps identityTask 4092 (some (List.replicate 8 0)) 8).buf[i]?) ∧
      (∀ c ∈ (copyToTask framesOnlyOps identityTask 4092 (some (List.replicate 8 7)) 8).calls,
        CallConfined 4092 8 c) ∧
      ∃ n, CstringCopied 4090 16 0
        (copyCstringFromTask framesOnlyOps identityTask 4090 (some (List.replicate 16 1)) 16) n := by
  obtain ⟨-, hfrom, hto, -⟩ := usercopy_confinement framesOnlyOps framesOnlyOps_sound
    identityTask 4092 8
  obtain ⟨-, -, -, hcstring⟩ := usercopy_confinement framesOnlyOps framesOnlyOps_sound
    identityTask 4090 16
  refine ⟨framesOnlyOps_sound, by decide +kernel, by decide +kernel, by decide +kernel, ?_, ?_, ?_⟩
  · exact (hfrom (List.replicate 8 0) (by simp)).2.2 (by decide +kernel)
  · exact (hto (List.replicate 8 7) (by simp)).1
  · exact (hcstring (List.replicate 16 1) (by simp)).2.2 (by decide +kernel)

end Wos.UserCopy
