import Mathlib

/-! # The hash index of a block-format XFS directory

A block-format directory keeps, after its data entries, a leaf array of
`(hashval, address)` pairs sorted by hash, one per entry.  `dir2_block_lookup_loaded`
binary-searches it by the name's hash (`xfs_da_hashname`), backs up to the first
entry of that hash, and scans forward.  `dir2_block_removename` does not delete a
leaf entry: it turns it stale (address `XFS_DIR2_NULL_DATAPTR`), hash kept.
`dir2_block_addname` with stale entries present places the new entry after the last
*live* entry whose hash is at most the new one (`dir2LeafPrepareStaleInsert`) and
shifts toward the nearest stale slot (`dir2LeafReuseStaleEntry`).

The search finds every live entry while the array is sorted
(`BlockDir.lookup_of_sorted`).  The insertion, though, ignores the hashes of stale
entries: stale entries whose hashes lie between that live entry and the new hash stay
after the new entry.  From the block `dir2_sf_to_block` builds for the names `a`,
`b`, `c`, `e`, removing `a`, `b`, `c` and adding `d` leaves the array unsorted, and
the lookup of `d` misses it (`dir_leaf_stale_insert_loses_entry`).

The data area is reduced to the names at each address; its free-space management is
not modelled, and `addname` is given the address of the new data entry.
-/

namespace Wos.XfsDir

/-! ## Names and their hashes -/

/-- `rol32`. -/
def rol32 (val shift : UInt32) : UInt32 := (val <<< shift) ||| (val >>> (32 - shift))

/-- The loop of `xfs_da_hashname` after the bytes already hashed into `hash`: four
bytes at a time, then the remaining one to three. -/
def xfsDaHashnameFrom (hash : UInt32) : List UInt8 → UInt32
  | n0 :: n1 :: n2 :: n3 :: rest =>
    xfsDaHashnameFrom ((n0.toUInt32 <<< 21) ^^^ (n1.toUInt32 <<< 14) ^^^ (n2.toUInt32 <<< 7) ^^^
      n3.toUInt32 ^^^ rol32 hash 28) rest
  | [n0, n1, n2] => (n0.toUInt32 <<< 14) ^^^ (n1.toUInt32 <<< 7) ^^^ n2.toUInt32 ^^^ rol32 hash 21
  | [n0, n1] => (n0.toUInt32 <<< 7) ^^^ n1.toUInt32 ^^^ rol32 hash 14
  | [n0] => n0.toUInt32 ^^^ rol32 hash 7
  | [] => hash

/-- `xfs_da_hashname`. -/
def xfsDaHashname (name : List UInt8) : UInt32 := xfsDaHashnameFrom 0 name

/-! ## The leaf array -/

/-- `XFS_DIR2_NULL_DATAPTR`, the address of a stale entry. -/
def xfsDir2NullDataptr : UInt32 := 0

structure LeafEntry where
  hashval : UInt32
  address : UInt32
deriving DecidableEq, Repr, Inhabited

def LeafEntry.IsLive (e : LeafEntry) : Prop := e.address ≠ xfsDir2NullDataptr

instance (e : LeafEntry) : Decidable e.IsLive := inferInstanceAs (Decidable (_ ≠ _))

/-- The hashes of the array are non-decreasing, stale entries included. -/
def Sorted (lep : List LeafEntry) : Prop := lep.Pairwise fun a b => a.hashval ≤ b.hashval

instance (lep : List LeafEntry) : Decidable (Sorted lep) := inferInstanceAs (Decidable (List.Pairwise _ _))

/-- The binary search of `dir2_block_lookup_loaded` (and `dir2_block_removename`) over
the indices `[lo, hi]`: the index of an entry of hash `hash`, if it meets one.  Each
pass shrinks the range, so `fuel = length + 1` runs it to its end. -/
def hashSearch (lep : List LeafEntry) (hash : UInt32) : Nat → Int → Int → Option Nat
  | 0, _, _ => none
  | fuel + 1, lo, hi =>
    if lo ≤ hi then
      let mid := (lo + hi) / 2
      let entryHash := (lep.getD mid.toNat default).hashval
      if hash < entryHash then hashSearch lep hash fuel lo (mid - 1)
      else if hash > entryHash then hashSearch lep hash fuel (mid + 1) hi
      else some mid.toNat
    else none

/-- `while (mid > 0 && blp[mid - 1].hashval == HASH) mid--`. -/
def backUp (lep : List LeafEntry) (hash : UInt32) : Nat → Nat
  | 0 => 0
  | mid + 1 => if (lep.getD mid default).hashval = hash then backUp lep hash mid else mid + 1

/-- The forward scan from index `i` over `rest = lep.drop i`: the live entries of the
run of `hash`, with their indices, stale ones skipped. -/
def liveRun (hash : UInt32) : Nat → List LeafEntry → List (Nat × UInt32)
  | _, [] => []
  | i, e :: rest =>
    if e.hashval ≠ hash then []
    else if e.address = xfsDir2NullDataptr then liveRun hash (i + 1) rest
    else (i, e.address) :: liveRun hash (i + 1) rest

/-- `insert_pos` of `dir2_leaf_prepare_stale_insert`: one past the last live entry
whose hash is at most `hash`; stale entries are not looked at. -/
def liveInsertPos (lep : List LeafEntry) (hash : UInt32) : Nat :=
  lep.zipIdx.foldl (fun pos ei => if ei.1.IsLive ∧ ei.1.hashval ≤ hash then ei.2 + 1 else pos) 0

/-- The stale entry nearest to `insertPos`, the first of the nearest on a tie. -/
def nearestStale (lep : List LeafEntry) (insertPos : Nat) : Option Nat :=
  (lep.zipIdx.foldl (fun (best : Option Nat × Nat) ei =>
    if ¬ei.1.IsLive then
      let dist := if ei.2 ≥ insertPos then ei.2 - insertPos else insertPos - ei.2
      if dist < best.2 then (some ei.2, dist) else best
    else best) (none, lep.length + 1)).1

/-- `dir2_leaf_prepare_stale_insert`: the stale slot to reuse and the insertion
position; `none` is `-ENOSPC` (no stale entry counted) or `-EINVAL` (none found). -/
def dir2LeafPrepareStaleInsert (lep : List LeafEntry) (stale : Nat) (hash : UInt32) : Option (Nat × Nat) :=
  if stale = 0 then none
  else (nearestStale lep (liveInsertPos lep hash)).map fun s => (s, liveInsertPos lep hash)

/-- `for (i = from; i < from + n; i++) lep[i] = lep[i + 1]`. -/
def shiftDown : List LeafEntry → Nat → Nat → List LeafEntry
  | lep, _, 0 => lep
  | lep, i, n + 1 => shiftDown (lep.set i (lep.getD (i + 1) default)) (i + 1) n

/-- `for (i = from; i > from - n; i--) lep[i] = lep[i - 1]`. -/
def shiftUp : List LeafEntry → Nat → Nat → List LeafEntry
  | lep, _, 0 => lep
  | lep, i, n + 1 => shiftUp (lep.set i (lep.getD (i - 1) default)) (i - 1) n

/-- `dir2_leaf_reuse_stale_entry`: close the stale slot by shifting the entries
between it and the insertion position, and write the new entry there. -/
def dir2LeafReuseStaleEntry (lep : List LeafEntry) (hash dataptr : UInt32) (staleIdx insertPos : Nat) :
    List LeafEntry :=
  if staleIdx < insertPos then
    (shiftDown lep staleIdx (insertPos - 1 - staleIdx)).set (insertPos - 1) ⟨hash, dataptr⟩
  else if staleIdx > insertPos then
    (shiftUp lep staleIdx (staleIdx - insertPos)).set insertPos ⟨hash, dataptr⟩
  else lep.set insertPos ⟨hash, dataptr⟩

/-- The insertion position of the growing branch of `dir2_block_addname`: one past the
last entry whose hash is at most `hash`. -/
def growInsertPos (lep : List LeafEntry) (hash : UInt32) : Nat :=
  lep.zipIdx.foldl (fun pos ei => if ei.1.hashval ≤ hash then ei.2 + 1 else pos) 0

/-! ## The block directory -/

/-- A block directory: its leaf array, the stale count of its block tail, and the name
of the data entry at each address. -/
structure BlockDir where
  leaf : List LeafEntry
  stale : Nat
  data : List (UInt32 × List UInt8)
deriving DecidableEq, Repr

def BlockDir.nameAt (d : BlockDir) (addr : UInt32) : Option (List UInt8) := d.data.lookup addr

/-- The search of `dir2_block_lookup_loaded` and `dir2_block_removename` for `name`:
the index and address of its leaf entry, if the search reaches it. -/
def BlockDir.findName (d : BlockDir) (name : List UInt8) : Option (Nat × UInt32) :=
  let hash := xfsDaHashname name
  match hashSearch d.leaf hash (d.leaf.length + 1) 0 ((d.leaf.length : Int) - 1) with
  | none => none
  | some mid =>
    let first := backUp d.leaf hash mid
    (liveRun hash first (d.leaf.drop first)).find? fun c => d.nameAt c.2 == some name

/-- `dir2_block_lookup_loaded`: the address of `name`'s data entry; `none` is `-ENOENT`. -/
def BlockDir.lookup (d : BlockDir) (name : List UInt8) : Option UInt32 := (d.findName name).map (·.2)

/-- `dir2_block_removename`: the leaf entry becomes stale, its data entry free space. -/
def BlockDir.removename (d : BlockDir) (name : List UInt8) : Option BlockDir :=
  (d.findName name).map fun c =>
    ⟨d.leaf.set c.1 ⟨(d.leaf.getD c.1 default).hashval, xfsDir2NullDataptr⟩, d.stale + 1,
      d.data.filter (·.1 ≠ c.2)⟩

/-- The leaf update of `dir2_block_addname` for a data entry written at `dataptr`:
reuse a stale slot when the tail counts one, otherwise grow the array by one entry. -/
def BlockDir.addname (d : BlockDir) (name : List UInt8) (dataptr : UInt32) : Option BlockDir :=
  let hash := xfsDaHashname name
  if d.stale ≠ 0 then
    (dir2LeafPrepareStaleInsert d.leaf d.stale hash).map fun si =>
      ⟨dir2LeafReuseStaleEntry d.leaf hash dataptr si.1 si.2, d.stale - 1, (dataptr, name) :: d.data⟩
  else
    -- the array moves down one slot; the new last slot is overwritten by the shift
    let pos := growInsertPos d.leaf hash
    some ⟨(shiftUp (d.leaf ++ [default]) d.leaf.length (d.leaf.length - pos)).set pos ⟨hash, dataptr⟩,
      d.stale, (dataptr, name) :: d.data⟩

inductive DirOp where
  | add (name : List UInt8) (dataptr : UInt32)
  | remove (name : List UInt8)

def BlockDir.step (d : BlockDir) : DirOp → Option BlockDir
  | .add name dataptr => d.addname name dataptr
  | .remove name => d.removename name

def BlockDir.run : BlockDir → List DirOp → Option BlockDir
  | d, [] => some d
  | d, op :: ops => (d.step op).bind (·.run ops)

/-! ## Conversion from short form -/

/-- `sizeof(XfsDir3DataHdr)`. -/
def xfsDir3DataHdrSize : Nat := 64

/-- `dir2_data_entsize` with file types: inode number, length, name, type and tag,
padded to 8 bytes. -/
def dir2DataEntsize (namelen : Nat) : Nat := (8 + 1 + namelen + 2 + 1 + 7) / 8 * 8

/-- One pass of the insertion sort of `dir2_sf_to_block`: on the sorted prefix, `e`
goes after every entry whose hash is at most its own. -/
def insertSorted (e : LeafEntry) : List LeafEntry → List LeafEntry
  | [] => [e]
  | x :: xs => if x.hashval > e.hashval then e :: x :: xs else x :: insertSorted e xs

/-- The data entries `dir2_sf_to_block` lays out from offset `off`, with the leaf
entry of each (address = offset / 8). -/
def layoutEntries : Nat → List (List UInt8) → List (LeafEntry × (UInt32 × List UInt8))
  | _, [] => []
  | off, name :: names =>
    let addr := UInt32.ofNat (off / 8)
    (⟨xfsDaHashname name, addr⟩, (addr, name)) :: layoutEntries (off + dir2DataEntsize name.length) names

/-- The block `dir2_sf_to_block` builds for a short-form directory holding `names`:
`.` and `..` first, then the names, each leaf entry sorted in by insertion. -/
def dir2SfToBlock (names : List (List UInt8)) : BlockDir :=
  let entries := layoutEntries xfsDir3DataHdrSize ([46] :: [46, 46] :: names)
  ⟨(entries.map (·.1)).foldl (fun l e => insertSorted e l) [], 0, entries.map (·.2)⟩


/-! ## The search on a sorted array -/

section Search

variable {lep : List LeafEntry} {hash : UInt32}

theorem Sorted.hashval_le (hs : Sorted lep) {i j : Nat} (hij : i ≤ j) (hj : j < lep.length) :
    (lep.getD i default).hashval ≤ (lep.getD j default).hashval := by
  rw [List.getD_eq_getElem _ _ (by omega), List.getD_eq_getElem _ _ hj]
  rcases Nat.lt_or_eq_of_le hij with hlt | rfl
  · exact List.pairwise_iff_getElem.mp hs i j (by omega) hj hlt
  · exact UInt32.le_refl _

/-- The binary search finds an entry of `hash` whenever one lies in `[lo, hi]`: a
probe above `hash` puts every entry of `hash` below it, one below puts them above. -/
theorem hashSearch_found (hs : Sorted lep) :
    ∀ (fuel : Nat) (lo hi : Int), 0 ≤ lo → hi < lep.length → hi - lo < fuel →
      (∃ j : Nat, lo ≤ j ∧ (j : Int) ≤ hi ∧ (lep.getD j default).hashval = hash) →
      ∃ m, hashSearch lep hash fuel lo hi = some m ∧ m < lep.length ∧ (lep.getD m default).hashval = hash
  | 0, lo, hi, _, _, hfuel, ⟨j, hlo, hhi, _⟩ => by omega
  | fuel + 1, lo, hi, hlo0, hhiLen, hfuel, ⟨j, hlo, hhi, hj⟩ => by
    have hmid0 : 0 ≤ (lo + hi) / 2 := by omega
    have hmidLen : ((lo + hi) / 2).toNat < lep.length := by omega
    simp only [hashSearch, show lo ≤ hi by omega, if_true]
    split_ifs with hbelow habove
    · have hjmid : (j : Int) ≤ (lo + hi) / 2 - 1 := by
        by_contra hcon
        have := hs.hashval_le (i := ((lo + hi) / 2).toNat) (j := j) (by omega) (by omega)
        grind
      exact hashSearch_found hs fuel lo ((lo + hi) / 2 - 1) hlo0 (by omega) (by omega) ⟨j, hlo, hjmid, hj⟩
    · have hjmid : (lo + hi) / 2 + 1 ≤ (j : Int) := by
        by_contra hcon
        have := hs.hashval_le (i := j) (j := ((lo + hi) / 2).toNat) (by omega) hmidLen
        grind
      exact hashSearch_found hs fuel ((lo + hi) / 2 + 1) hi (by omega) hhiLen (by omega) ⟨j, hjmid, hhi, hj⟩
    · exact ⟨_, rfl, hmidLen, UInt32.le_antisymm (UInt32.not_lt.mp hbelow) (UInt32.not_lt.mp habove)⟩

/-- What the back-up loop leaves: an index at most its start, every entry from it up
to the start of hash `hash`, and the entry before it (if any) of another hash. -/
theorem backUp_spec : ∀ m : Nat,
    backUp lep hash m ≤ m ∧ (∀ j, backUp lep hash m ≤ j → j < m → (lep.getD j default).hashval = hash) ∧
      (backUp lep hash m = 0 ∨ (lep.getD (backUp lep hash m - 1) default).hashval ≠ hash)
  | 0 => by simp [backUp]
  | m + 1 => by
    by_cases hm : (lep.getD m default).hashval = hash
    · obtain ⟨hle, hrun, hbefore⟩ := backUp_spec m
      simp only [backUp, hm, if_true]
      refine ⟨by omega, fun j hj hjm => ?_, hbefore⟩
      rcases Nat.lt_or_eq_of_le (Nat.le_of_lt_succ hjm) with hlt | rfl
      · exact hrun j hj hlt
      · exact hm
    · simp only [backUp, hm, if_false]
      exact ⟨le_refl _, fun j hj hjm => absurd hjm (by omega), Or.inr hm⟩

/-- On a sorted array, backing up from any entry of `hash` reaches the start of the
run of `hash`: every entry of `hash` lies at or after it, with only `hash` between. -/
theorem backUp_le_of_sorted (hs : Sorted lep) {m i : Nat} (hm : m < lep.length)
    (hmh : (lep.getD m default).hashval = hash) (hi : i < lep.length) (hih : (lep.getD i default).hashval = hash) :
    backUp lep hash m ≤ i ∧ ∀ j, backUp lep hash m ≤ j → j ≤ i → (lep.getD j default).hashval = hash := by
  obtain ⟨hle, hrun, hbefore⟩ := @backUp_spec lep hash m
  have hfirst : backUp lep hash m ≤ i := by
    by_contra hcon
    have h1 := hs.hashval_le (i := i) (j := backUp lep hash m - 1) (by omega) (by omega)
    have h2 := hs.hashval_le (i := backUp lep hash m - 1) (j := m) (by omega) hm
    rcases hbefore with h0 | hne
    · omega
    · exact hne (UInt32.le_antisymm (hmh ▸ h2) (hih ▸ h1))
  refine ⟨hfirst, fun j hj hji => ?_⟩
  by_cases hjm : j < m
  · exact hrun j hj hjm
  · have h1 := hs.hashval_le (i := m) (j := j) (by omega) (by omega)
    have h2 := hs.hashval_le (i := j) (j := i) hji hi
    exact UInt32.le_antisymm (hih ▸ h2) (hmh ▸ h1)

end Search

/-- The forward scan visits every live entry of a run of `hash` that starts where it
does. -/
theorem mem_liveRun (hash : UInt32) : ∀ (l : List LeafEntry) (k j : Nat), j < l.length →
    (∀ t ≤ j, (l.getD t default).hashval = hash) → (l.getD j default).IsLive →
    (k + j, (l.getD j default).address) ∈ liveRun hash k l
  | [], _, _, hj, _, _ => absurd hj (Nat.not_lt_zero _)
  | e :: rest, k, 0, _, hrun, hlive => by
    have he : e.hashval = hash := hrun 0 (le_refl _)
    simp only [List.getD_cons_zero, LeafEntry.IsLive] at hlive
    simp [liveRun, he, hlive]
  | e :: rest, k, j + 1, hj, hrun, hlive => by
    have he : e.hashval = hash := hrun 0 (Nat.zero_le _)
    have hmem := mem_liveRun hash rest (k + 1) j (by simpa using hj) (fun t ht => by
      simpa using hrun (t + 1) (by omega)) (by simpa using hlive)
    rw [show k + (j + 1) = k + 1 + j by omega]
    simp only [List.getD_cons_succ]
    unfold liveRun
    split_ifs <;> simp_all

theorem getD_drop (l : List LeafEntry) (f t : Nat) : (l.drop f).getD t default = l.getD (f + t) default := by
  simp only [List.getD_eq_getElem?_getD, List.getElem?_drop]

/-- On a sorted leaf array the lookup finds every live entry's name: the binary
search reaches the run of its hash, the back-up its start, and the scan the entry. -/
theorem BlockDir.lookup_of_sorted (d : BlockDir) (name : List UInt8) (hs : Sorted d.leaf) (e : LeafEntry)
    (he : e ∈ d.leaf) (hhash : e.hashval = xfsDaHashname name) (hlive : e.IsLive)
    (hname : d.nameAt e.address = some name) :
    ∃ p, d.lookup name = some p ∧ d.nameAt p = some name := by
  obtain ⟨i, hi, rfl⟩ := List.mem_iff_getElem.mp he
  have hig : d.leaf.getD i default = d.leaf[i] := List.getD_eq_getElem _ _ hi
  obtain ⟨m, hm, hml, hmh⟩ := @hashSearch_found d.leaf (xfsDaHashname name) hs (d.leaf.length + 1) 0
    ((d.leaf.length : Int) - 1) (le_refl _) (by omega) (by omega) ⟨i, by omega, by omega, hig ▸ hhash⟩
  obtain ⟨hfirst, hrun⟩ := backUp_le_of_sorted hs hml hmh hi (hig ▸ hhash)
  set first := backUp d.leaf (xfsDaHashname name) m
  have hat : (d.leaf.drop first).getD (i - first) default = d.leaf[i] := by
    rw [getD_drop, show first + (i - first) = i by omega, hig]
  have hmem := mem_liveRun (xfsDaHashname name) (d.leaf.drop first) first (i - first)
    (by simp only [List.length_drop]; omega)
    (fun t ht => by rw [getD_drop]; exact hrun _ (by omega) (by omega)) (hat ▸ hlive)
  have hsome : ((liveRun (xfsDaHashname name) first (d.leaf.drop first)).find?
      fun c => d.nameAt c.2 == some name).isSome :=
    List.find?_isSome.mpr ⟨_, hmem, by rw [hat, hname]; exact beq_self_eq_true _⟩
  obtain ⟨c, hc⟩ := Option.isSome_iff_exists.mp hsome
  have hp := List.find?_some hc
  have hcname : d.nameAt c.2 = some name := beq_iff_eq.mp hp
  refine ⟨c.2, ?_, hcname⟩
  simp only [BlockDir.lookup, BlockDir.findName, hm, Option.map_eq_some_iff]
  exact ⟨c, hc, rfl⟩

/-! ## Operations that keep the array sorted -/

theorem sorted_iff_map (l : List LeafEntry) : Sorted l ↔ (l.map (·.hashval)).Pairwise (· ≤ ·) := by
  simp only [Sorted, List.pairwise_map]

/-- Removal keeps every hash in place, so it keeps the array sorted. -/
theorem BlockDir.removename_sorted {d d' : BlockDir} {name : List UInt8} (hs : Sorted d.leaf)
    (h : d.removename name = some d') : Sorted d'.leaf := by
  simp only [BlockDir.removename, Option.map_eq_some_iff] at h
  obtain ⟨c, -, rfl⟩ := h
  rw [sorted_iff_map, List.map_set]
  by_cases hc : c.1 < d.leaf.length
  · have hcm : c.1 < (d.leaf.map (·.hashval)).length := by simpa using hc
    rw [List.getD_eq_getElem _ _ hc, show (d.leaf[c.1]).hashval = (d.leaf.map (·.hashval))[c.1] by simp,
      List.set_getElem_self]
    exact (sorted_iff_map _).mp hs
  · rw [List.set_eq_of_length_le (by simpa using hc)]
    exact (sorted_iff_map _).mp hs

theorem mem_insertSorted {e x : LeafEntry} : ∀ {l : List LeafEntry}, x ∈ insertSorted e l ↔ x = e ∨ x ∈ l
  | [] => by simp [insertSorted]
  | y :: ys => by
    unfold insertSorted
    split_ifs
    · simp
    · simp only [List.mem_cons, mem_insertSorted]
      tauto

/-- One pass of the insertion sort keeps the array sorted. -/
theorem insertSorted_sorted (e : LeafEntry) : ∀ {l : List LeafEntry}, Sorted l → Sorted (insertSorted e l)
  | [], _ => List.pairwise_singleton _ _
  | x :: xs, hs => by
    obtain ⟨hx, hxs⟩ := List.pairwise_cons.mp hs
    unfold insertSorted
    split_ifs with hlt
    · refine List.pairwise_cons.mpr ⟨fun y hy => ?_, hs⟩
      rcases List.mem_cons.mp hy with rfl | hy
      · exact UInt32.le_of_lt hlt
      · exact UInt32.le_trans (UInt32.le_of_lt hlt) (hx y hy)
    · refine List.pairwise_cons.mpr ⟨fun y hy => ?_, insertSorted_sorted e hxs⟩
      rcases mem_insertSorted.mp hy with rfl | hy
      · exact UInt32.not_lt.mp hlt
      · exact hx y hy

/-- The block built from a short-form directory has a sorted leaf array. -/
theorem dir2SfToBlock_sorted (names : List (List UInt8)) : Sorted (dir2SfToBlock names).leaf := by
  -- the fold runs the insertion sort from the empty array
  suffices h : ∀ (es : List LeafEntry) (l : List LeafEntry), Sorted l →
      Sorted (es.foldl (fun l e => insertSorted e l) l) from h _ [] List.Pairwise.nil
  intro es
  induction es with
  | nil => exact fun _ hl => hl
  | cons e es ih => exact fun l hl => ih _ (insertSorted_sorted e hl)

/-! ## The stale insertion breaks the order -/

/-- The block `dir2_sf_to_block` builds for a directory of `a`, `b`, `c` and `e`. -/
def abceBlock : BlockDir := dir2SfToBlock [[97], [98], [99], [101]]

/-- Removing `a`, `b` and `c` leaves stale entries of hashes 97, 98 and 99; adding `d`
(hash 100) puts it after `.` (the last live entry of hash at most 100) and reuses the
stale slot of `a`, so the stale entries of 98 and 99 stay after it.  The array is no
longer sorted, and the binary search, sent below by the probe of hash 98, misses `d`. -/
theorem dir_leaf_stale_insert_loses_entry :
    ∃ d, abceBlock.run [.remove [97], .remove [98], .remove [99], .add [100] 40] = some d ∧
      Sorted abceBlock.leaf ∧ ¬Sorted d.leaf ∧ d.nameAt 40 = some [100] ∧ d.lookup [100] = none :=
  ⟨_, rfl, by decide, by decide, by decide, by decide⟩

end Wos.XfsDir
