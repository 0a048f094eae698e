import WosKernel.BufferEpochs
import WosKernel.Lib.IntervalMerge

/-! # Range copies that must cover every block

`copy_dirty_bdev_range_if_complete_locked` and `copy_cached_bdev_range_if_complete_internal`
fill a destination from cached buffers and report success only when the pieces they
copied cover the whole range.  The blocks copied so far are kept as intervals
(`dirty_coverage_add`): an interval touching the new one is widened into it and
removed by moving the last interval into its slot, which is then examined again.  No
two stored intervals ever touch (`dirtyCoverageAdd_wf`), and until the fixed array
overflows they cover exactly the blocks added (`dirtyCoverageAdd_covered`,
`coverageOf_covered`).

The dirty copy takes the dirty buffers by increasing epoch, so the newest copy ends on
top.  The cached copy takes the newest buffer covering the whole range, or else every
idle valid buffer that reaches the range, and overlays the newer valid aliases on the
result.  In every reachable cache a `true` result means that each block holds the
bytes of the newest buffer the function drew on for it
(`copyDirtyRangeIfComplete_fromNewest`, `copyCachedRangeIfComplete_fromNewest`).

Sizes are counted in blocks and block numbers are naturals, as in
`WosKernel.BufferCache`; the coverage intervals are `uint64` as in the source.  The
copies are stated for ranges of device blocks (`blockNo + count ≤ 2^64`), where the
two agree.  The byte offsets of the source (`SRC_OFF`, `DST_OFF`, the clipped
`copy_bytes`) are whole blocks here, so their early `continue`s never apply to a buffer
that reaches the range.
-/

namespace Wos.BufferCache

open IntervalMerge

variable {V : Type}

/-! ## Coverage intervals -/

/-- `DirtyCoverageInterval`: the blocks `[first, last]`. -/
structure DirtyCoverageInterval where
  first : UInt64
  last : UInt64
deriving DecidableEq, Repr

/-- The interval's blocks as naturals. -/
def DirtyCoverageInterval.span (iv : DirtyCoverageInterval) : ℕ × ℕ := (iv.first.toNat, iv.last.toNat)

/-- `DIRTY_COPY_COVERAGE_MAX_INTERVALS`. -/
def dirtyCopyCoverageMaxIntervals : Nat := 64

/-- `UINT64_MAX`. -/
def uint64Max : UInt64 := 0xFFFFFFFFFFFFFFFF

/-- `dirty_intervals_touch_or_overlap`: neither interval ends more than one block
before the other starts; one ending at `UINT64_MAX` is before nothing. -/
def dirtyIntervalsTouchOrOverlap (lhs rhs : DirtyCoverageInterval) : Bool :=
  let lhsBefore := lhs.last != uint64Max && lhs.last + 1 < rhs.first
  let rhsBefore := rhs.last != uint64Max && rhs.last + 1 < lhs.first
  !lhsBefore && !rhsBefore

/-- The merge loop of `dirty_coverage_add` from slot `i`: an interval that touches
`interval` is widened into it and its slot takes the last interval, which is examined
next.  Each round raises `i` or lowers the count, so `fuel = intervals.length`
suffices. -/
def dirtyCoverageMerge : Nat → Nat → List DirtyCoverageInterval → DirtyCoverageInterval →
    List DirtyCoverageInterval × DirtyCoverageInterval
  | 0, _, intervals, interval => (intervals, interval)
  | fuel + 1, i, intervals, interval =>
    if h : i < intervals.length then
      if !dirtyIntervalsTouchOrOverlap intervals[i] interval then
        dirtyCoverageMerge fuel (i + 1) intervals interval
      else
        dirtyCoverageMerge fuel i (swapRemove intervals i)
          ⟨min interval.first intervals[i].first, max interval.last intervals[i].last⟩
    else (intervals, interval)

/-- `dirty_coverage_add`: the array is the list of its first `interval_count` slots;
returns it with the overflow flag.  An empty interval, or an add after an overflow,
changes nothing. -/
def dirtyCoverageAdd (intervals : List DirtyCoverageInterval) (interval : DirtyCoverageInterval)
    (overflow : Bool) : List DirtyCoverageInterval × Bool :=
  if overflow || decide (interval.first > interval.last) then (intervals, overflow)
  else
    let r := dirtyCoverageMerge intervals.length 0 intervals interval
    if r.1.length ≥ dirtyCopyCoverageMaxIntervals then (r.1, true)
    else (r.1 ++ [r.2], false)

/-- `block_range_last_block`: the last block of the range, `UINT64_MAX` when the range
runs past it. -/
def blockRangeLastBlock (blockNo : UInt64) (count : Nat) : UInt64 :=
  if count = 0 then blockNo
  else if count - 1 > (uint64Max - blockNo).toNat then uint64Max
  else blockNo + UInt64.ofNat (count - 1)

/-- `dirty_coverage_complete`: one interval holds the whole range. -/
def dirtyCoverageComplete (intervals : List DirtyCoverageInterval) (blockNo : UInt64) (count : Nat) :
    Bool :=
  intervals.any fun iv => decide (iv.first ≤ blockNo) && decide (iv.last ≥ blockRangeLastBlock blockNo count)

/-- The coverage after adding `adds` one by one to an empty array. -/
def coverageOf (adds : List DirtyCoverageInterval) : List DirtyCoverageInterval × Bool :=
  adds.foldl (fun s iv => dirtyCoverageAdd s.1 iv s.2) ([], false)

/-! ### The touch test -/

@[simp] theorem toNat_uint64Max : uint64Max.toNat = 2 ^ 64 - 1 := rfl

/-- `a` ends more than one block before `b` starts; at `UINT64_MAX` the `+ 1` would
wrap, and the guard makes the test false, as it is over the naturals. -/
theorem before_iff (a b : UInt64) :
    (a != uint64Max && a + 1 < b) = true ↔ a.toNat + 1 < b.toNat := by
  have hb := b.toNat_lt
  by_cases ha : a = uint64Max
  · subst ha
    simp only [bne_self_eq_false, Bool.false_and, Bool.false_eq_true, false_iff, toNat_uint64Max]
    omega
  · have hlt : a.toNat < 2 ^ 64 - 1 := by
      have := a.toNat_lt
      have hne : a.toNat ≠ uint64Max.toNat := fun h => ha (UInt64.toNat_inj.mp h)
      rw [toNat_uint64Max] at hne
      omega
    have hadd : (a + 1).toNat = a.toNat + 1 := by
      rw [UInt64.toNat_add, UInt64.toNat_one, Nat.mod_eq_of_lt (by omega)]
    have hne : (a != uint64Max) = true := bne_iff_ne.mpr ha
    rw [hne, Bool.true_and, decide_eq_true_eq, UInt64.lt_iff_toNat_lt, hadd]

/-- **The touch test is touching over the naturals**, the `UINT64_MAX` guard included. -/
theorem touch_iff (lhs rhs : DirtyCoverageInterval) :
    dirtyIntervalsTouchOrOverlap lhs rhs = true ↔ Touch lhs.span rhs.span := by
  have h₁ := before_iff lhs.last rhs.first
  have h₂ := before_iff rhs.last lhs.first
  simp only [dirtyIntervalsTouchOrOverlap, Bool.and_eq_true, Bool.not_eq_true', Touch,
    DirtyCoverageInterval.span]
  rw [← Bool.not_eq_true, h₁, ← Bool.not_eq_true, h₂]
  omega

/-! ### No two intervals touch, and the union is kept -/

/-- What `dirty_coverage_add` keeps of its array: every interval is nonempty and no two
touch. -/
structure CoverageWf (intervals : List DirtyCoverageInterval) : Prop where
  nonempty : ∀ iv ∈ intervals, iv.span.1 ≤ iv.span.2
  apart : intervals.Pairwise fun a b => ¬ Touch a.span b.span

theorem coverageWf_nil : CoverageWf [] := ⟨fun _ h => absurd h List.not_mem_nil, List.Pairwise.nil⟩

theorem span_widen (x y : DirtyCoverageInterval) :
    (DirtyCoverageInterval.mk (min x.first y.first) (max x.last y.last)).span = hull x.span y.span := by
  simp only [DirtyCoverageInterval.span, hull, UInt64.toNat_min, UInt64.toNat_max]

/-- **The merge loop.**  From slot `i`, with no slot before `i` touching `x`, the loop
ends with an array in which no interval touches the widened interval, and the two
together cover what the array and `x` covered. -/
theorem dirtyCoverageMerge_spec :
    ∀ (fuel i : Nat) (ivs : List DirtyCoverageInterval) (x : DirtyCoverageInterval),
      ivs.length ≤ fuel + i → CoverageWf ivs → x.span.1 ≤ x.span.2 →
      (∀ j, j < i → ∀ iv, ivs[j]? = some iv → ¬ Touch iv.span x.span) →
      CoverageWf (dirtyCoverageMerge fuel i ivs x).1 ∧
        (dirtyCoverageMerge fuel i ivs x).2.span.1 ≤ (dirtyCoverageMerge fuel i ivs x).2.span.2 ∧
        (∀ iv ∈ (dirtyCoverageMerge fuel i ivs x).1, ¬ Touch iv.span (dirtyCoverageMerge fuel i ivs x).2.span) ∧
        Set.Icc (dirtyCoverageMerge fuel i ivs x).2.span.1 (dirtyCoverageMerge fuel i ivs x).2.span.2 ∪
            covered DirtyCoverageInterval.span (dirtyCoverageMerge fuel i ivs x).1 =
          Set.Icc x.span.1 x.span.2 ∪ covered DirtyCoverageInterval.span ivs := by
  have hend : ∀ (i : Nat) (ivs : List DirtyCoverageInterval) (x : DirtyCoverageInterval), ivs.length ≤ i →
      (∀ j, j < i → ∀ iv, ivs[j]? = some iv → ¬ Touch iv.span x.span) → ∀ iv ∈ ivs, ¬ Touch iv.span x.span := by
    intro i ivs x hlen hbefore iv hiv
    obtain ⟨j, hj⟩ := List.mem_iff_getElem?.mp hiv
    have hjl : j < ivs.length := (List.getElem?_eq_some_iff.mp hj).1
    exact hbefore j (by omega) iv hj
  intro fuel
  induction fuel with
  | zero =>
    intro i ivs x hlen hwf hx hbefore
    exact ⟨hwf, hx, hend i ivs x (by omega) hbefore, rfl⟩
  | succ fuel ih =>
    intro i ivs x hlen hwf hx hbefore
    simp only [dirtyCoverageMerge]
    split
    · rename_i hi
      split
      · -- slot `i` is apart from `x`: pass over it
        rename_i htouch
        refine ih (i + 1) ivs x (by omega) hwf hx fun j hj iv hiv => ?_
        rcases Nat.lt_succ_iff_lt_or_eq.mp hj with hj | rfl
        · exact hbefore j hj iv hiv
        · rw [List.getElem?_eq_getElem hi, Option.some.injEq] at hiv
          subst hiv
          rw [← touch_iff]
          simpa using htouch
      · -- slot `i` touches `x`: widen `x`, and move the last interval into the slot
        rename_i htouch
        have htx : Touch x.span ivs[i].span := (touch_comm _ _).mp ((touch_iff _ _).mp (by simpa using htouch))
        have hlen' := length_swapRemove hi
        have hwf' : CoverageWf (swapRemove ivs i) :=
          ⟨fun iv hiv => hwf.nonempty iv (mem_of_mem_swapRemove hi hiv),
            pairwise_swapRemove hwf.apart (fun h h' => h (Touch.symm h')) hi⟩
        obtain ⟨hr₁, hr₂, hr₃, hr₄⟩ := ih i (swapRemove ivs i) ⟨min x.first ivs[i].first, max x.last ivs[i].last⟩
          (by omega) hwf' (by rw [span_widen]; exact hull_nonempty hx)
          (fun j hj iv hiv => by
            rw [getElem?_swapRemove_of_lt hj hi] at hiv
            have hjl : j < ivs.length := by omega
            rw [List.getElem?_eq_getElem hjl, Option.some.injEq] at hiv
            subst hiv
            rw [span_widen]
            have hji : ¬ Touch ivs[j].span ivs[i].span := List.pairwise_iff_getElem.mp hwf.apart j i hjl hi hj
            intro hhull
            rcases touch_hull (hwf.nonempty _ (List.getElem_mem hjl)) htx hhull with h | h
            · exact hbefore j hj _ (List.getElem?_eq_getElem hjl) h
            · exact hji h)
        refine ⟨hr₁, hr₂, hr₃, ?_⟩
        rw [hr₄, span_widen, Icc_hull htx, Set.union_assoc, covered_swapRemove _ hi]
    · rename_i hi
      exact ⟨hwf, hx, hend i ivs x (by omega) hbefore, rfl⟩

theorem dirtyCoverageAdd_wf {ivs : List DirtyCoverageInterval} (h : CoverageWf ivs)
    (iv : DirtyCoverageInterval) (overflow : Bool) : CoverageWf (dirtyCoverageAdd ivs iv overflow).1 := by
  unfold dirtyCoverageAdd
  split
  · exact h
  · rename_i hskip
    have hx : iv.span.1 ≤ iv.span.2 := by
      simp only [Bool.or_eq_true, decide_eq_true_eq, not_or, UInt64.lt_iff_toNat_lt] at hskip
      simp only [DirtyCoverageInterval.span]
      omega
    obtain ⟨hr₁, -, hr₃, -⟩ := dirtyCoverageMerge_spec ivs.length 0 ivs iv (by omega) h hx
      (fun _ hj => absurd hj (Nat.not_lt_zero _))
    dsimp only
    split
    · exact hr₁
    · obtain ⟨hr₁, hr₂, hr₃, -⟩ := dirtyCoverageMerge_spec ivs.length 0 ivs iv (by omega) h hx
        (fun _ hj => absurd hj (Nat.not_lt_zero _))
      refine ⟨fun x hx' => ?_, List.pairwise_append.mpr ⟨hr₁.apart, List.pairwise_singleton _ _, ?_⟩⟩
      · rcases List.mem_append.mp hx' with hx' | hx'
        · exact hr₁.nonempty x hx'
        · rw [List.mem_singleton.mp hx']
          exact hr₂
      · intro a ha b hb
        rw [List.mem_singleton.mp hb]
        exact hr₃ a ha

/-- **While it does not overflow, an add covers the union.** -/
theorem dirtyCoverageAdd_covered {ivs : List DirtyCoverageInterval} (h : CoverageWf ivs)
    {iv : DirtyCoverageInterval} {overflow : Bool} (hov : (dirtyCoverageAdd ivs iv overflow).2 = false) :
    overflow = false ∧ covered DirtyCoverageInterval.span (dirtyCoverageAdd ivs iv overflow).1 =
      covered DirtyCoverageInterval.span ivs ∪ Set.Icc iv.span.1 iv.span.2 := by
  unfold dirtyCoverageAdd at hov ⊢
  split
  · rename_i hskip
    rw [if_pos hskip] at hov
    have hof : overflow = false := hov
    refine ⟨hof, ?_⟩
    have hempty : iv.span.2 < iv.span.1 := by
      simp only [hof, Bool.false_or, decide_eq_true_eq, UInt64.lt_iff_toNat_lt] at hskip
      exact hskip
    rw [Set.Icc_eq_empty (Nat.not_le.mpr hempty), Set.union_empty]
  · rename_i hskip
    rw [if_neg hskip] at hov
    have hskip' : overflow = false ∧ iv.first ≤ iv.last := by simpa using hskip
    have hx : iv.span.1 ≤ iv.span.2 := UInt64.le_iff_toNat_le.mp hskip'.2
    have hof : overflow = false := hskip'.1
    obtain ⟨-, -, -, hr₄⟩ := dirtyCoverageMerge_spec ivs.length 0 ivs iv (by omega) h hx
      (fun _ hj => absurd hj (Nat.not_lt_zero _))
    dsimp only at hov ⊢
    split at hov
    · cases hov
    · rw [if_neg ‹_›]
      refine ⟨hof, ?_⟩
      rw [covered_append, covered_cons, covered_nil, Set.union_empty, Set.union_comm, hr₄, Set.union_comm]

/-- After an overflow, further adds change nothing. -/
theorem foldl_dirtyCoverageAdd_of_overflow :
    ∀ (adds : List DirtyCoverageInterval) (s : List DirtyCoverageInterval × Bool), s.2 = true →
      adds.foldl (fun s iv => dirtyCoverageAdd s.1 iv s.2) s = s
  | [], _, _ => rfl
  | iv :: adds, s, hs => by
    have hsame : dirtyCoverageAdd s.1 iv s.2 = s := by
      rw [dirtyCoverageAdd, if_pos (by simp [hs])]
    rw [List.foldl_cons, hsame]
    exact foldl_dirtyCoverageAdd_of_overflow adds s hs

/-- Adds in turn to an array in which no two intervals touch: no two touch after them,
and with no overflow the array covers what it covered and every added interval. -/
theorem foldl_dirtyCoverageAdd :
    ∀ (adds : List DirtyCoverageInterval) (s : List DirtyCoverageInterval × Bool), CoverageWf s.1 →
      CoverageWf (adds.foldl (fun s iv => dirtyCoverageAdd s.1 iv s.2) s).1 ∧
      ((adds.foldl (fun s iv => dirtyCoverageAdd s.1 iv s.2) s).2 = false →
        covered DirtyCoverageInterval.span (adds.foldl (fun s iv => dirtyCoverageAdd s.1 iv s.2) s).1 =
          covered DirtyCoverageInterval.span s.1 ∪ covered DirtyCoverageInterval.span adds)
  | [], s, h => ⟨h, fun _ => by rw [covered_nil, Set.union_empty]; rfl⟩
  | iv :: adds, s, h => by
    rw [List.foldl_cons]
    obtain ⟨ih₁, ih₂⟩ := foldl_dirtyCoverageAdd adds _ (dirtyCoverageAdd_wf h iv s.2)
    refine ⟨ih₁, fun hov => ?_⟩
    -- an overflow at this add would have lasted to the end
    have hstep : (dirtyCoverageAdd s.1 iv s.2).2 = false := by
      cases hst : (dirtyCoverageAdd s.1 iv s.2).2 with
      | false => rfl
      | true =>
        rw [foldl_dirtyCoverageAdd_of_overflow adds _ hst, hst] at hov
        cases hov
    rw [ih₂ hov, (dirtyCoverageAdd_covered h hstep).2, covered_cons, Set.union_assoc,
      Set.union_comm (Set.Icc _ _), ← Set.union_assoc, Set.union_assoc]

/-- **A run of adds without overflow covers exactly what was added.** -/
theorem coverageOf_covered (adds : List DirtyCoverageInterval) (h : (coverageOf adds).2 = false) :
    covered DirtyCoverageInterval.span (coverageOf adds).1 = covered DirtyCoverageInterval.span adds := by
  unfold coverageOf at h ⊢
  rw [(foldl_dirtyCoverageAdd adds ([], false) coverageWf_nil).2 h, covered_nil, Set.empty_union]

/-- The merge does not skip the interval moved into a freed slot: `[5, 5]` is widened
into `[4, 5]`, `[2, 3]` moves into its slot and is widened in next. -/
example : dirtyCoverageAdd [⟨0, 0⟩, ⟨5, 5⟩, ⟨2, 3⟩] ⟨4, 4⟩ false = ([⟨0, 0⟩, ⟨2, 5⟩], false) := by
  decide

/-! ## The range copies -/

/-- The blocks of `[blockNo, blockNo + count)` that `b` covers, as the copy records
them (`COVERED_FIRST`, `COVERED_LAST`). -/
def coveredInterval (b : BufHead V) (blockNo count : Nat) : DirtyCoverageInterval :=
  ⟨UInt64.ofNat (max b.blockNo blockNo), UInt64.ofNat (min (b.blockNo + b.count - 1) (blockNo + count - 1))⟩

/-- What a range copy carries along: the destination, the coverage array, whether
anything was copied, and the overflow flag. -/
structure RangeCopy (V : Type) where
  dst : List V
  coverage : List DirtyCoverageInterval
  copied : Bool
  overflow : Bool

/-- The loop of `copy_dirty_bdev_range_if_complete_locked` above epoch `minEpoch`:
copy what the oldest dirty buffer the filter admits covers of the range, record those
blocks, and stop at once if the coverage overflows.  Each round raises the bound past
one buffer, so `fuel = buffers.length` suffices. -/
def Cache.dirtyCopyLoop [Inhabited V] (c : Cache V) (blockNo count : Nat) :
    Nat → Nat → RangeCopy V → RangeCopy V
  | 0, _, s => s
  | fuel + 1, minEpoch, s =>
    match oldestAfter (dirtyFilterMatches blockNo count) minEpoch c.buffers with
    | none => s
    | some b =>
      let cov := dirtyCoverageAdd s.coverage (coveredInterval b blockNo count) s.overflow
      let s' : RangeCopy V := ⟨overlayAlias b blockNo s.dst, cov.1, true, cov.2⟩
      if s'.overflow then s' else c.dirtyCopyLoop blockNo count fuel b.dirtyEpoch s'

/-- `copy_dirty_bdev_range_if_complete_locked` into `dst`, whose length is the block
count: `true` when something was copied and one coverage interval holds the range. -/
def Cache.copyDirtyRangeIfComplete [Inhabited V] (c : Cache V) (blockNo : Nat) (dst : List V) :
    List V × Bool :=
  let s := c.dirtyCopyLoop blockNo dst.length c.buffers.length 0 ⟨dst, [], false, false⟩
  (s.dst, !s.overflow && s.copied && dirtyCoverageComplete s.coverage (UInt64.ofNat blockNo) dst.length)

/-- `cached_buffer_fully_covers`: a valid, unreferenced buffer holding the whole range. -/
def fullyCovers (blockNo count : Nat) (b : BufHead V) : Bool :=
  b.valid && b.refcount == 0 && decide (b.blockNo ≤ blockNo ∧ blockNo + count ≤ b.blockNo + b.count)

/-- One step of `range_find_newest_covering_locked`: a fully covering buffer replaces
the best so far when it is newer, or as new and smaller. -/
def newerCovering (blockNo count : Nat) (best : Option (BufHead V)) (b : BufHead V) :
    Option (BufHead V) :=
  if fullyCovers blockNo count b then
    match best with
    | none => some b
    | some o =>
      if o.dirtyEpoch < b.dirtyEpoch ∨ (b.dirtyEpoch = o.dirtyEpoch ∧ b.count < o.count) then some b else best
  else best

/-- `range_find_newest_covering_locked`, over the buffers in index order. -/
def newestCovering (blockNo count : Nat) (bufs : List (BufHead V)) : Option (BufHead V) :=
  bufs.foldl (newerCovering blockNo count) none

/-- `cached_buffer_copy_coverage`: a valid, unreferenced buffer that reaches the range
is copied and its blocks recorded; it counts as copied unless the coverage overflows. -/
def cachedBufferCopyCoverage [Inhabited V] (blockNo count : Nat) (s : RangeCopy V) (b : BufHead V) :
    RangeCopy V :=
  if b.valid && b.refcount == 0 && b.overlaps blockNo count then
    let cov := dirtyCoverageAdd s.coverage (coveredInterval b blockNo count) s.overflow
    ⟨overlayAlias b blockNo s.dst, cov.1, s.copied || !cov.2, cov.2⟩
  else s

/-- `RANGE_COPY_MAX_VISITS`. -/
def rangeCopyMaxVisits : Nat := 256

/-- `range_copy_cached_overlaps_locked` over the nodes it visits, in index order: each
visit counts towards `RANGE_COPY_MAX_VISITS`, and the walk stops at an overflow. -/
def rangeCopyCachedOverlaps [Inhabited V] (blockNo count : Nat) :
    List (BufHead V) → Nat → RangeCopy V → RangeCopy V
  | [], _, s => s
  | b :: rest, visits, s =>
    if s.overflow then s
    else if visits ≥ rangeCopyMaxVisits then { s with overflow := true }
    else rangeCopyCachedOverlaps blockNo count rest (visits + 1) (cachedBufferCopyCoverage blockNo count s b)

/-- `copy_cached_bdev_range_if_complete_internal` into `dst`, whose length is the block
count.  A buffer covering the whole range is copied with its newer aliases overlaid;
otherwise every idle valid buffer reaching the range is copied and, when they cover
it, every valid alias newer than epoch `0` is overlaid.  The walk visits the buffers
that reach the range (the range tree descends only into subtrees that do; the nodes on
its paths that miss the range, which the code also counts, are not modelled). -/
def Cache.copyCachedRangeIfComplete [Inhabited V] (c : Cache V) (blockNo : Nat) (dst : List V) :
    List V × Bool :=
  let count := dst.length
  if count = 0 ∨ !c.buffers.any (·.overlaps blockNo count) then (dst, false)
  else
    match newestCovering blockNo count c.buffers with
    | some cv => (overlayNewer c blockNo cv.dirtyEpoch ((cv.data.drop (blockNo - cv.blockNo)).take count), true)
    | none =>
      let s := rangeCopyCachedOverlaps blockNo count (c.buffers.filter (·.overlaps blockNo count)) 0
        ⟨dst, [], false, false⟩
      let complete := s.copied && !s.overflow && dirtyCoverageComplete s.coverage (UInt64.ofNat blockNo) count
      (if complete then overlayNewer c blockNo 0 s.dst else s.dst, complete)

/-- The buffers `copy_cached_bdev_range_if_complete_internal` draws on: the covering
buffer and the valid aliases newer than it, or, when no buffer covers the whole range,
the idle valid buffers the walk copies and the valid aliases newer than epoch `0`. -/
def Cache.cachedCopySource (c : Cache V) (blockNo count : Nat) (b : BufHead V) : Prop :=
  match newestCovering blockNo count c.buffers with
  | some cv => b = cv ∨ (canOverlay blockNo count b = true ∧ cv.dirtyEpoch < b.dirtyEpoch)
  | none => (b.valid = true ∧ b.refcount = 0 ∧ b.overlaps blockNo count = true) ∨
      (canOverlay blockNo count b = true ∧ 0 < b.dirtyEpoch)

/-- Each block of `[blockNo, blockNo + count)` holds in `dst'` the bytes of a buffer of
`cands` covering it, and no buffer of `cands` covering it is newer. -/
def FromNewest (bufs : List (BufHead V)) (cands : BufHead V → Prop) (blockNo count : Nat)
    (dst' : List V) : Prop :=
  ∀ k, blockNo ≤ k → k < blockNo + count →
    ∃ a ∈ bufs, cands a ∧ a.Covers k ∧ dst'[k - blockNo]? = a.data[k - a.blockNo]? ∧
      ∀ b ∈ bufs, cands b → b.Covers k → b.dirtyEpoch ≤ a.dirtyEpoch

/-! ### Ranges of device blocks -/

section Blocks

variable {blockNo count : Nat}

theorem toNat_ofNat_of_le (hr : blockNo + count ≤ 2 ^ 64) {n : Nat} (hn : n < blockNo + count) :
    (UInt64.ofNat n).toNat = n :=
  UInt64.toNat_ofNat_of_lt' (by rw [show UInt64.size = 2 ^ 64 from rfl]; omega)

/-- Over a range of device blocks, `block_range_last_block` does not saturate. -/
theorem toNat_blockRangeLastBlock (hr : blockNo + count ≤ 2 ^ 64) (hc : 0 < count) :
    (blockRangeLastBlock (UInt64.ofNat blockNo) count).toNat = blockNo + count - 1 := by
  have hbn : (UInt64.ofNat blockNo).toNat = blockNo := toNat_ofNat_of_le hr (by omega)
  have hroom : ¬ count - 1 > (uint64Max - UInt64.ofNat blockNo).toNat := by
    rw [UInt64.toNat_sub_of_le _ _ (UInt64.le_iff_toNat_le.mpr (by rw [hbn, toNat_uint64Max]; omega)),
      toNat_uint64Max, hbn]
    omega
  unfold blockRangeLastBlock
  rw [if_neg (by omega), if_neg hroom, UInt64.toNat_add, hbn, toNat_ofNat_of_le hr (by omega),
    Nat.mod_eq_of_lt (by omega)]
  omega

/-- **A complete coverage holds every block of the range.** -/
theorem covered_of_complete {cov : List DirtyCoverageInterval} (hr : blockNo + count ≤ 2 ^ 64)
    (h : dirtyCoverageComplete cov (UInt64.ofNat blockNo) count = true) :
    ∀ k, blockNo ≤ k → k < blockNo + count → k ∈ covered DirtyCoverageInterval.span cov := by
  intro k hk hk'
  obtain ⟨iv, hiv, hcond⟩ := List.any_eq_true.mp h
  simp only [Bool.and_eq_true, decide_eq_true_eq, ge_iff_le, UInt64.le_iff_toNat_le,
    toNat_blockRangeLastBlock hr (by omega), toNat_ofNat_of_le hr (by omega : blockNo < blockNo + count)] at hcond
  exact ⟨iv, hiv, by simp only [DirtyCoverageInterval.span, Set.mem_Icc]; omega⟩

/-- The coverage interval of a buffer reaching the range is its part of the range. -/
theorem mem_coveredInterval {b : BufHead V} (ho : b.overlaps blockNo count = true)
    (hr : blockNo + count ≤ 2 ^ 64) (hc : 0 < count) {k : Nat}
    (hk : k ∈ Set.Icc (coveredInterval b blockNo count).span.1 (coveredInterval b blockNo count).span.2) :
    b.Covers k ∧ blockNo ≤ k ∧ k < blockNo + count := by
  simp only [BufHead.overlaps, decide_eq_true_eq] at ho
  have h₁ : max b.blockNo blockNo < blockNo + count := by omega
  have h₂ : min (b.blockNo + b.count - 1) (blockNo + count - 1) < blockNo + count := by omega
  simp only [coveredInterval, DirtyCoverageInterval.span, Set.mem_Icc, toNat_ofNat_of_le hr h₁,
    toNat_ofNat_of_le hr h₂] at hk
  exact ⟨⟨by omega, by omega⟩, by omega, by omega⟩

theorem dirty_of_dirtyFilterMatches {b : BufHead V} (h : dirtyFilterMatches blockNo count b = true) :
    b.dirty = true := by
  simp only [dirtyFilterMatches, BufHead.dirtyMatches, Bool.and_eq_true] at h
  exact h.1.1

theorem overlaps_of_dirtyFilterMatches {b : BufHead V} (h : dirtyFilterMatches blockNo count b = true) :
    b.overlaps blockNo count = true := by
  simp only [dirtyFilterMatches, Bool.and_eq_true] at h
  exact h.2

end Blocks

/-! ### The dirty copy -/

/-- **The dirty copy loop.**  Each round copies the next dirty buffer by epoch on top
and records its blocks: the destination stays newest-wins over the rounds done, and the
coverage holds only blocks of buffers copied. -/
theorem dirtyCopyLoop_spec [Inhabited V] {c : Cache V} {blockNo count : Nat} (dst : List V)
    (hd : EpochsDistinct c.buffers) (hr : blockNo + count ≤ 2 ^ 64) (hc : 0 < count) :
    ∀ (fuel e : Nat) (s : RangeCopy V), pendingAbove (dirtyFilterMatches blockNo count) e c.buffers ≤ fuel →
      s.overflow = false → CoverageWf s.coverage →
      NewestWins c.buffers (Window (dirtyFilterMatches blockNo count) 0 e) blockNo dst s.dst →
      (∀ k ∈ covered DirtyCoverageInterval.span s.coverage,
        ∃ a ∈ c.buffers, Window (dirtyFilterMatches blockNo count) 0 e a ∧ a.Covers k) →
      (c.dirtyCopyLoop blockNo count fuel e s).overflow = false →
      NewestWins c.buffers (fun b => dirtyFilterMatches blockNo count b = true ∧ 0 < b.dirtyEpoch) blockNo dst
          (c.dirtyCopyLoop blockNo count fuel e s).dst ∧
        ∀ k ∈ covered DirtyCoverageInterval.span (c.dirtyCopyLoop blockNo count fuel e s).coverage,
          ∃ a ∈ c.buffers, dirtyFilterMatches blockNo count a = true ∧ a.Covers k
  | fuel, e, s, hfuel, hs, hwf, hw, hcov, hov => by
    have hdone : oldestAfter (dirtyFilterMatches blockNo count) e c.buffers = none →
        NewestWins c.buffers (fun b => dirtyFilterMatches blockNo count b = true ∧ 0 < b.dirtyEpoch) blockNo dst
          s.dst ∧
        ∀ k ∈ covered DirtyCoverageInterval.span s.coverage,
          ∃ a ∈ c.buffers, dirtyFilterMatches blockNo count a = true ∧ a.Covers k := by
      intro hnone
      refine ⟨hw.congr fun b hb => ⟨fun h => ⟨h.1, h.2.1⟩, fun h => ⟨h.1, h.2, ?_⟩⟩,
        fun k hk => ?_⟩
      · exact Nat.le_of_not_lt fun heb => absurd (oldestAfter_eq_none.mp hnone b hb h.1) (by omega)
      · obtain ⟨a, ha, hwa, hak⟩ := hcov k hk
        exact ⟨a, ha, hwa.1, hak⟩
    cases fuel with
    | zero => exact hdone (oldestAfter_eq_none_of_pendingAbove (Nat.le_zero.mp hfuel))
    | succ fuel =>
      cases ha : oldestAfter (dirtyFilterMatches blockNo count) e c.buffers with
      | none =>
        simp only [Cache.dirtyCopyLoop, ha]
        exact hdone ha
      | some a =>
        simp only [Cache.dirtyCopyLoop, ha] at hov ⊢
        by_cases hadd : (dirtyCoverageAdd s.coverage (coveredInterval a blockNo count) s.overflow).2 = true
        · -- an overflow ends the loop with the flag set
          rw [if_pos hadd] at hov
          exact absurd hadd (by simpa using hov)
        · rw [if_neg hadd] at hov ⊢
          obtain ⟨hamem, hsa, hea, -⟩ := oldestAfter_some ha
          have hadd' : (dirtyCoverageAdd s.coverage (coveredInterval a blockNo count) s.overflow).2 = false := by
            simpa using hadd
          have hcovered := (dirtyCoverageAdd_covered hwf hadd').2
          refine dirtyCopyLoop_spec dst hd hr hc fuel a.dirtyEpoch _ (by have := pendingAbove_lt ha; omega) hadd'
            (dirtyCoverageAdd_wf hwf _ _) (hw.overlay_step hd ha (Nat.zero_le e)) (fun k hk => ?_) hov
          rw [hcovered] at hk
          rcases hk with hk | hk
          · obtain ⟨a₁, ha₁, hw₁, hak₁⟩ := hcov k hk
            exact ⟨a₁, ha₁, ⟨hw₁.1, hw₁.2.1, Nat.le_trans hw₁.2.2 (Nat.le_of_lt hea)⟩, hak₁⟩
          · exact ⟨a, hamem, ⟨hsa, by omega, Nat.le_refl _⟩,
              (mem_coveredInterval (overlaps_of_dirtyFilterMatches hsa) hr hc hk).1⟩

/-- **`copy_dirty_bdev_range_if_complete_locked`.**  In a cache whose nonzero epochs are
distinct, a `true` result means every block of the range holds the bytes of the newest
dirty buffer the filter admits that covers it. -/
theorem copyDirtyRangeIfComplete_fromNewest [Inhabited V] {c : Cache V} (hw : c.Wf) {blockNo : Nat}
    {dst : List V} (hr : blockNo + dst.length ≤ 2 ^ 64) (h : (c.copyDirtyRangeIfComplete blockNo dst).2 = true) :
    FromNewest c.buffers (fun b => dirtyFilterMatches blockNo dst.length b = true) blockNo dst.length
      (c.copyDirtyRangeIfComplete blockNo dst).1 := by
  intro k hk hk'
  simp only [Cache.copyDirtyRangeIfComplete, Bool.and_eq_true, Bool.not_eq_true'] at h ⊢
  obtain ⟨⟨hov, -⟩, hcomplete⟩ := h
  obtain ⟨hnw, hcov⟩ := dirtyCopyLoop_spec dst hw.distinct hr (by omega) _ _ _ List.countP_le_length rfl
    coverageWf_nil (newestWins_self fun _ _ hb => by have := hb.2.1; have := hb.2.2; omega)
    (fun k hk => by simp at hk) hov
  obtain ⟨a, ha, hsa, hak⟩ := hcov k (covered_of_complete hr hcomplete k hk hk')
  have hpos : ∀ b ∈ c.buffers, dirtyFilterMatches blockNo dst.length b = true → 0 < b.dirtyEpoch :=
    fun b hb hsb => hw.dirty_pos b hb (dirty_of_dirtyFilterMatches hsb)
  rcases hnw.2 k hk hk' with ⟨x, hx, hcx, hxk, hv, hmax⟩ | ⟨hnone, -⟩
  · exact ⟨x, hx, hcx.1, hxk, hv, fun y hy hsy hyk => hmax y hy ⟨hsy, hpos y hy hsy⟩ hyk⟩
  · exact absurd hak (hnone a ha ⟨hsa, hpos a ha hsa⟩)

/-! ### The cached copy -/

section Cached

variable {blockNo count : Nat}

theorem accepts_iff {b : BufHead V} :
    (b.valid && b.refcount == 0 && b.overlaps blockNo count) = true ↔
      b.valid = true ∧ b.refcount = 0 ∧ b.overlaps blockNo count = true := by
  simp only [Bool.and_eq_true, beq_iff_eq, and_assoc]

/-- **One node of the walk**: an accepted buffer is copied on top and its blocks are
recorded; any other leaves the copy as it was. -/
theorem cachedBufferCopyCoverage_spec [Inhabited V] (hr : blockNo + count ≤ 2 ^ 64) (hc : 0 < count)
    {s : RangeCopy V} {b : BufHead V} (hwf : CoverageWf s.coverage) (hlen : s.dst.length = count)
    (hov : (cachedBufferCopyCoverage blockNo count s b).overflow = false) :
    CoverageWf (cachedBufferCopyCoverage blockNo count s b).coverage ∧
      (cachedBufferCopyCoverage blockNo count s b).dst.length = count ∧
      (∀ k ∈ covered DirtyCoverageInterval.span (cachedBufferCopyCoverage blockNo count s b).coverage,
        k ∈ covered DirtyCoverageInterval.span s.coverage ∨
          ((b.valid && b.refcount == 0 && b.overlaps blockNo count) = true ∧ b.Covers k)) ∧
      ∀ k, blockNo ≤ k → k < blockNo + count →
        ((b.valid && b.refcount == 0 && b.overlaps blockNo count) = true ∧ b.Covers k ∧
            (cachedBufferCopyCoverage blockNo count s b).dst[k - blockNo]? = b.data[k - b.blockNo]?) ∨
        (¬ ((b.valid && b.refcount == 0 && b.overlaps blockNo count) = true ∧ b.Covers k) ∧
            (cachedBufferCopyCoverage blockNo count s b).dst[k - blockNo]? = s.dst[k - blockNo]?) := by
  unfold cachedBufferCopyCoverage at hov ⊢
  by_cases hb : (b.valid && b.refcount == 0 && b.overlaps blockNo count) = true
  · rw [if_pos hb] at hov ⊢
    have hcovered := (dirtyCoverageAdd_covered hwf hov).2
    refine ⟨dirtyCoverageAdd_wf hwf _ _, by rw [length_overlayAlias, hlen], fun k hk => ?_, fun k hk hk' => ?_⟩
    · rw [hcovered] at hk
      rcases hk with hk | hk
      · exact Or.inl hk
      · exact Or.inr ⟨hb, (mem_coveredInterval (accepts_iff.mp hb).2.2 hr hc hk).1⟩
    · by_cases hbk : b.Covers k
      · exact Or.inl ⟨hb, hbk, overlayAlias_of_covers hk (by rw [hlen]; exact hk') hbk⟩
      · exact Or.inr ⟨fun h => hbk h.2, overlayAlias_of_not_covers hk hbk⟩
  · rw [if_neg hb]
    exact ⟨hwf, hlen, fun k hk => Or.inl hk, fun k _ _ => Or.inr ⟨fun h => hb h.1, rfl⟩⟩

theorem rangeCopyCachedOverlaps_of_overflow [Inhabited V] {s : RangeCopy V} (h : s.overflow = true) :
    ∀ (l : List (BufHead V)) (visits : Nat), (rangeCopyCachedOverlaps blockNo count l visits s).overflow = true
  | [], _ => h
  | _ :: _, _ => by rw [rangeCopyCachedOverlaps, if_pos h]; exact h

/-- **The walk of `range_copy_cached_overlaps_locked`**, when it does not overflow:
every recorded block is one an accepted buffer covers, and each block holds the bytes of
an accepted buffer covering it, or its old bytes if none does. -/
theorem rangeCopyCachedOverlaps_spec [Inhabited V] (hr : blockNo + count ≤ 2 ^ 64) (hc : 0 < count) :
    ∀ (l : List (BufHead V)) (visits : Nat) (s : RangeCopy V), s.overflow = false →
      CoverageWf s.coverage → s.dst.length = count →
      (rangeCopyCachedOverlaps blockNo count l visits s).overflow = false →
      (rangeCopyCachedOverlaps blockNo count l visits s).dst.length = count ∧
      (∀ k ∈ covered DirtyCoverageInterval.span (rangeCopyCachedOverlaps blockNo count l visits s).coverage,
        k ∈ covered DirtyCoverageInterval.span s.coverage ∨
          ∃ a ∈ l, (a.valid && a.refcount == 0 && a.overlaps blockNo count) = true ∧ a.Covers k) ∧
      ∀ k, blockNo ≤ k → k < blockNo + count →
        (∃ a ∈ l, (a.valid && a.refcount == 0 && a.overlaps blockNo count) = true ∧ a.Covers k ∧
            (rangeCopyCachedOverlaps blockNo count l visits s).dst[k - blockNo]? = a.data[k - a.blockNo]?) ∨
        ((∀ a ∈ l, (a.valid && a.refcount == 0 && a.overlaps blockNo count) = true → ¬ a.Covers k) ∧
            (rangeCopyCachedOverlaps blockNo count l visits s).dst[k - blockNo]? = s.dst[k - blockNo]?)
  | [], _, s, _, _, hlen, _ =>
    ⟨hlen, fun k hk => Or.inl hk, fun k _ _ => Or.inr ⟨fun _ h => absurd h List.not_mem_nil, rfl⟩⟩
  | b :: rest, visits, s, hs, hwf, hlen, hov => by
    simp only [rangeCopyCachedOverlaps, hs, Bool.false_eq_true, if_false] at hov ⊢
    by_cases hv : visits ≥ rangeCopyMaxVisits
    · rw [if_pos hv] at hov
      cases hov
    · rw [if_neg hv] at hov ⊢
      have hov₁ : (cachedBufferCopyCoverage blockNo count s b).overflow = false := by
        cases h : (cachedBufferCopyCoverage blockNo count s b).overflow with
        | false => rfl
        | true =>
          rw [rangeCopyCachedOverlaps_of_overflow h] at hov
          cases hov
      obtain ⟨hwf₁, hlen₁, hcov₁, hdst₁⟩ := cachedBufferCopyCoverage_spec hr hc hwf hlen hov₁
      obtain ⟨ihlen, ihcov, ihdst⟩ := rangeCopyCachedOverlaps_spec hr hc rest (visits + 1) _ hov₁ hwf₁ hlen₁ hov
      refine ⟨ihlen, fun k hk => ?_, fun k hk hk' => ?_⟩
      · rcases ihcov k hk with hk | ⟨a, ha, hacc, hak⟩
        · rcases hcov₁ k hk with hk | ⟨hacc, hbk⟩
          · exact Or.inl hk
          · exact Or.inr ⟨b, List.mem_cons_self .., hacc, hbk⟩
        · exact Or.inr ⟨a, List.mem_cons_of_mem _ ha, hacc, hak⟩
      · rcases ihdst k hk hk' with ⟨a, ha, hacc, hak, hva⟩ | ⟨hnone, hva⟩
        · exact Or.inl ⟨a, List.mem_cons_of_mem _ ha, hacc, hak, hva⟩
        · rw [hva]
          rcases hdst₁ k hk hk' with ⟨hacc, hbk, hvb⟩ | ⟨hnb, hvb⟩
          · exact Or.inl ⟨b, List.mem_cons_self .., hacc, hbk, hvb⟩
          · refine Or.inr ⟨fun a ha hacc hak => ?_, hvb⟩
            rcases List.mem_cons.mp ha with rfl | ha
            · exact hnb ⟨hacc, hak⟩
            · exact hnone a ha hacc hak

theorem newerCovering_cases (best : Option (BufHead V)) (b : BufHead V) :
    newerCovering blockNo count best b = best ∨
      (fullyCovers blockNo count b = true ∧ newerCovering blockNo count best b = some b) := by
  unfold newerCovering
  split
  · rename_i hb
    split
    · exact Or.inr ⟨hb, rfl⟩
    · split
      · exact Or.inr ⟨hb, rfl⟩
      · exact Or.inl rfl
  · exact Or.inl rfl

theorem foldl_newerCovering :
    ∀ (bufs : List (BufHead V)) (best : Option (BufHead V)) {cv : BufHead V},
      bufs.foldl (newerCovering blockNo count) best = some cv →
        best = some cv ∨ (cv ∈ bufs ∧ fullyCovers blockNo count cv = true)
  | [], _, _, h => Or.inl h
  | b :: rest, best, cv, h => by
    rw [List.foldl_cons] at h
    rcases foldl_newerCovering rest _ h with h' | ⟨hmem, hfull⟩
    · rcases newerCovering_cases best b with heq | ⟨hfull, heq⟩
      · rw [heq] at h'
        exact Or.inl h'
      · rw [heq, Option.some.injEq] at h'
        subst h'
        exact Or.inr ⟨List.mem_cons_self .., hfull⟩
    · exact Or.inr ⟨List.mem_cons_of_mem _ hmem, hfull⟩

/-- The buffer `range_find_newest_covering_locked` picks is cached and covers the range. -/
theorem newestCovering_some {bufs : List (BufHead V)} {cv : BufHead V}
    (h : newestCovering blockNo count bufs = some cv) : cv ∈ bufs ∧ fullyCovers blockNo count cv = true := by
  rcases foldl_newerCovering bufs none h with h | h
  · cases h
  · exact h

theorem covers_of_fullyCovers {cv : BufHead V} (h : fullyCovers blockNo count cv = true) {k : Nat}
    (hk : blockNo ≤ k) (hk' : k < blockNo + count) : cv.Covers k := by
  simp only [fullyCovers, Bool.and_eq_true, beq_iff_eq, decide_eq_true_eq] at h
  exact ⟨by omega, by omega⟩

/-- The covering buffer's blocks of the range, copied whole (`memcpy` of `count`
blocks from `SRC_OFF`). -/
theorem length_slice {cv : BufHead V} (h : fullyCovers blockNo count cv = true) :
    ((cv.data.drop (blockNo - cv.blockNo)).take count).length = count := by
  simp only [fullyCovers, Bool.and_eq_true, beq_iff_eq, decide_eq_true_eq] at h
  have hcount : cv.count = cv.data.length := rfl
  rw [List.length_take, List.length_drop]
  omega

theorem getElem?_slice {cv : BufHead V} (h : fullyCovers blockNo count cv = true) {k : Nat}
    (hk : blockNo ≤ k) (hk' : k < blockNo + count) :
    ((cv.data.drop (blockNo - cv.blockNo)).take count)[k - blockNo]? = cv.data[k - cv.blockNo]? := by
  simp only [fullyCovers, Bool.and_eq_true, beq_iff_eq, decide_eq_true_eq] at h
  rw [List.getElem?_take_of_lt (by omega), List.getElem?_drop]
  congr 1
  omega

end Cached

/-- **`copy_cached_bdev_range_if_complete_internal`.**  In a cache whose nonzero epochs
are distinct, a `true` result means every block of the range holds the bytes of the
newest buffer the function drew on that covers it. -/
theorem copyCachedRangeIfComplete_fromNewest [Inhabited V] {c : Cache V} (hw : c.Wf) {blockNo : Nat}
    {dst : List V} (hr : blockNo + dst.length ≤ 2 ^ 64) (h : (c.copyCachedRangeIfComplete blockNo dst).2 = true) :
    FromNewest c.buffers (c.cachedCopySource blockNo dst.length) blockNo dst.length
      (c.copyCachedRangeIfComplete blockNo dst).1 := by
  intro k hk hk'
  have hc : 0 < dst.length := by omega
  unfold Cache.copyCachedRangeIfComplete at h ⊢
  unfold Cache.cachedCopySource
  dsimp only at h ⊢
  split at h
  · cases h
  · rename_i hpre
    rw [if_neg hpre]
    cases hcv : newestCovering blockNo dst.length c.buffers with
    | some cv =>
      -- the covering buffer, with the newer aliases overlaid
      obtain ⟨hcvmem, hfull⟩ := newestCovering_some hcv
      have hlen := length_slice hfull
      have hnw := overlayNewer_newestWins hw.distinct blockNo cv.dirtyEpoch
        ((cv.data.drop (blockNo - cv.blockNo)).take dst.length)
      rw [hlen] at hnw
      dsimp only
      rcases hnw.2 k hk (by rw [hlen]; exact hk') with ⟨x, hx, hcx, hxk, hv, hmax⟩ | ⟨hnone, hv⟩
      · refine ⟨x, hx, Or.inr hcx, hxk, hv, fun y hy hsy hyk => ?_⟩
        rcases hsy with rfl | hsy
        · exact Nat.le_of_lt hcx.2
        · exact hmax y hy hsy hyk
      · refine ⟨cv, hcvmem, Or.inl rfl, covers_of_fullyCovers hfull hk hk',
          hv.trans (getElem?_slice hfull hk hk'), fun y hy hsy hyk => ?_⟩
        rcases hsy with rfl | hsy
        · exact Nat.le_refl _
        · exact absurd hyk (hnone y hy hsy)
    | none =>
      -- the walk's copies, with every valid alias newer than epoch `0` overlaid
      rw [hcv] at h
      dsimp only at h ⊢
      have hcomp := h
      simp only [Bool.and_eq_true, Bool.not_eq_true'] at h
      obtain ⟨⟨-, hov⟩, hcomplete⟩ := h
      rw [if_pos hcomp]
      obtain ⟨hslen, hcov, hdst⟩ := rangeCopyCachedOverlaps_spec hr hc _ 0 ⟨dst, [], false, false⟩ rfl
        coverageWf_nil rfl hov
      obtain ⟨a₁, ha₁, hacc₁, hak₁⟩ : ∃ a ∈ c.buffers.filter (·.overlaps blockNo dst.length),
          (a.valid && a.refcount == 0 && a.overlaps blockNo dst.length) = true ∧ a.Covers k := by
        rcases hcov k (covered_of_complete hr hcomplete k hk hk') with hk₀ | h₁
        · simp at hk₀
        · exact h₁
      rcases hdst k hk hk' with ⟨a₂, ha₂, hacc₂, hak₂, hv₂⟩ | ⟨hnone₂, -⟩
      · have hnw := overlayNewer_newestWins hw.distinct blockNo 0
          (rangeCopyCachedOverlaps blockNo dst.length (c.buffers.filter (·.overlaps blockNo dst.length)) 0
            ⟨dst, [], false, false⟩).dst
        rw [hslen] at hnw
        rcases hnw.2 k hk (by rw [hslen]; exact hk') with ⟨x, hx, hcx, hxk, hv, hmax⟩ | ⟨hnone, hv⟩
        · refine ⟨x, hx, Or.inr hcx, hxk, hv, fun y hy hsy hyk => ?_⟩
          rcases hsy with ⟨hyv, -, hyo⟩ | hsy
          · rcases Nat.eq_zero_or_pos y.dirtyEpoch with h0 | hpos
            · rw [h0]; exact Nat.zero_le _
            · exact hmax y hy ⟨by simp only [canOverlay, hyv, hyo, Bool.and_self], hpos⟩ hyk
          · exact hmax y hy hsy hyk
        · refine ⟨a₂, (List.mem_filter.mp ha₂).1, Or.inl (accepts_iff.mp hacc₂), hak₂, hv.trans hv₂,
            fun y hy hsy hyk => ?_⟩
          rcases hsy with ⟨hyv, -, hyo⟩ | hsy
          · rcases Nat.eq_zero_or_pos y.dirtyEpoch with h0 | hpos
            · rw [h0]; exact Nat.zero_le _
            · exact absurd hyk (hnone y hy ⟨by simp only [canOverlay, hyv, hyo, Bool.and_self], hpos⟩)
          · exact absurd hyk (hnone y hy hsy)
      · exact absurd hak₁ (hnone₂ a₁ ha₁ hacc₁)

/-! ## Over every reachable cache -/

/-- **Range copy coverage is exact.**  (a) `dirty_coverage_add` keeps its intervals
nonempty with no two touching, and a run of adds without overflow covers exactly the
blocks added.  Over every cache reached from an empty one and every range of device
blocks, (b) a `true` result of either complete copy leaves in each block the bytes of
the newest buffer covering it among those the function drew on, and (c) the overlay of
newer aliases ends within its fuel and leaves in each block the bytes of the newest
valid alias above the bound that covers it, if any. -/
theorem range_copy_coverage_exact [Inhabited V] :
    (∀ (intervals : List DirtyCoverageInterval) (interval : DirtyCoverageInterval) (overflow : Bool),
      CoverageWf intervals → CoverageWf (dirtyCoverageAdd intervals interval overflow).1) ∧
    (∀ adds : List DirtyCoverageInterval, (coverageOf adds).2 = false →
      covered DirtyCoverageInterval.span (coverageOf adds).1 = covered DirtyCoverageInterval.span adds) ∧
    ∀ (disk : Nat → V) (ops : List (Op V)) (w : World V), (World.init disk).run ops = some w →
      (∀ (blockNo : Nat) (dst : List V), blockNo + dst.length ≤ 2 ^ 64 →
        ((w.cache.copyDirtyRangeIfComplete blockNo dst).2 = true →
          FromNewest w.cache.buffers (fun b => dirtyFilterMatches blockNo dst.length b = true) blockNo
            dst.length (w.cache.copyDirtyRangeIfComplete blockNo dst).1) ∧
        ((w.cache.copyCachedRangeIfComplete blockNo dst).2 = true →
          FromNewest w.cache.buffers (w.cache.cachedCopySource blockNo dst.length) blockNo dst.length
            (w.cache.copyCachedRangeIfComplete blockNo dst).1)) ∧
      ∀ (blockNo minEpoch : Nat) (dst : List V),
        (∀ extra, overlayLoop w.cache.buffers (canOverlay blockNo dst.length) blockNo
            (w.cache.buffers.length + extra) minEpoch dst = overlayNewer w.cache blockNo minEpoch dst) ∧
        NewestWins w.cache.buffers (fun b => canOverlay blockNo dst.length b = true ∧ minEpoch < b.dirtyEpoch)
          blockNo dst (overlayNewer w.cache blockNo minEpoch dst) := by
  refine ⟨fun intervals interval overflow h => dirtyCoverageAdd_wf h interval overflow, coverageOf_covered,
    fun disk ops w hrun => ?_⟩
  have hw := World.wf_of_run hrun
  exact ⟨fun blockNo dst hr => ⟨copyDirtyRangeIfComplete_fromNewest hw hr, copyCachedRangeIfComplete_fromNewest hw hr⟩,
    fun blockNo minEpoch dst =>
      ⟨overlayNewer_fuel_eq w.cache blockNo minEpoch dst, overlayNewer_newestWins hw.distinct blockNo minEpoch dst⟩⟩

/-- Buffer `0` caches blocks `0, 1` and is dirtied with `1, 2`; buffer `1` caches block
`1` and is dirtied with `3` after it; both are released.  Both complete copies of
blocks `0, 1` succeed with `1, 3`; the two coverage intervals `[0, 1]` and `[1, 1]` of
the dirty copy merge into one. -/
theorem range_copy_coverage_exact_two_aliases :
    let ops : List (Op Nat) := [.bget 0 0 2, .overwrite 0 [1, 2], .bdirty 0, .bget 0 1 1, .overwrite 1 [3],
      .bdirty 1, .brelse 0, .brelse 1]
    ∃ w, (World.init fun _ => (0 : Nat)).run ops = some w ∧
      CoverageWf (dirtyCoverageAdd [⟨0, 1⟩] ⟨3, 4⟩ false).1 ∧
      (coverageOf [⟨0, 1⟩, ⟨1, 1⟩]).2 = false ∧
      covered DirtyCoverageInterval.span (coverageOf [⟨0, 1⟩, ⟨1, 1⟩]).1 =
        covered DirtyCoverageInterval.span [⟨0, 1⟩, ⟨1, 1⟩] ∧
      w.cache.copyDirtyRangeIfComplete 0 [0, 0] = ([1, 3], true) ∧
      FromNewest w.cache.buffers (fun b => dirtyFilterMatches 0 2 b = true) 0 2 [1, 3] ∧
      w.cache.copyCachedRangeIfComplete 0 [0, 0] = ([1, 3], true) ∧
      FromNewest w.cache.buffers (w.cache.cachedCopySource 0 2) 0 2 [1, 3] := by
  intro ops
  obtain ⟨hwf, hadds, hruns⟩ := range_copy_coverage_exact (V := Nat)
  have hone : CoverageWf [(⟨0, 1⟩ : DirtyCoverageInterval)] :=
    ⟨fun iv hiv => by rw [List.mem_singleton.mp hiv]; decide, List.pairwise_singleton _ _⟩
  have hcopies := (hruns (fun _ => 0) ops _ rfl).1 0 [0, 0] (by norm_num)
  exact ⟨_, rfl, hwf _ _ _ hone, rfl, hadds _ rfl, rfl, hcopies.1 rfl, rfl, hcopies.2 rfl⟩

end Wos.BufferCache
