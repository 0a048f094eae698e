import WosKernel.PageAllocCache

/-! # Freeing a range of order-0 pages

`free_order0_range_at` gives back the `page_count` allocated order-0 pages from `page_idx`,
whose references have all been dropped.  It checks every page first, then walks the range:
at each step it takes the run of pages of the cursor's owner and frees the largest aligned
block within that run in one call of `free_allocated_block`, so that one owner's release
never covers another owner's pages.

Each step frees an aligned run of one owner's order-0 pages (`sameOwnerRun_spec`,
`largestOrderForAlignedRun_isGreatest`), which is an `OwnedSpan`; the release loop is proved by
induction on its fuel, one block at a time (`freeRangeLoop_spec`).  On a well-formed
allocator with exact counters a range that passes the checks is freed whole: the call
returns its bytes, a client sees exactly its pages become free, and the layout and the
counters stay exact (`freeOrder0RangeAt_of_ok`).
-/

namespace Wos.PageAlloc

open Buddy

variable {a : PageAllocator}

/-! ## The block sizes of the walk -/

section Orders

variable (pageIdx pageCount : Nat)

/-- The orders the loop of `largest_order_for_aligned_run` passes through: from an order
whose block fits in the count and is aligned at the index, the loop ends at such an order,
and at one no order above it up to `MAX_ORDER` beats. -/
theorem largestOrderLoop_spec : ∀ fuel order, order + fuel = maxOrder →
    2 ^ order ≤ pageCount → 2 ^ order ∣ pageIdx →
    largestOrderLoop pageIdx pageCount fuel order ≤ maxOrder ∧
      2 ^ largestOrderLoop pageIdx pageCount fuel order ≤ pageCount ∧
      2 ^ largestOrderLoop pageIdx pageCount fuel order ∣ pageIdx ∧
      ∀ j, j ≤ maxOrder → 2 ^ j ≤ pageCount → 2 ^ j ∣ pageIdx →
        j ≤ largestOrderLoop pageIdx pageCount fuel order
  | 0, order, hk, hc, hd => by
    simp only [largestOrderLoop]
    exact ⟨by omega, hc, hd, fun j hj _ _ => by omega⟩
  | fuel + 1, order, hk, hc, hd => by
    -- an order above one the loop stops at would make the next block fit and be aligned
    have hnext : ∀ j, order < j → 2 ^ j ≤ pageCount → 2 ^ j ∣ pageIdx →
        2 ^ (order + 1) ≤ pageCount ∧ 2 ^ (order + 1) ∣ pageIdx := fun j hj hjc hjd =>
      have hpow := Nat.pow_dvd_pow 2 (show order + 1 ≤ j by omega)
      ⟨(Nat.le_of_dvd (by positivity) hpow).trans hjc, hpow.trans hjd⟩
    have hstop : ∀ j, 2 ^ j ≤ pageCount → 2 ^ j ∣ pageIdx →
        ¬ (2 ^ (order + 1) ≤ pageCount ∧ 2 ^ (order + 1) ∣ pageIdx) → j ≤ order :=
      fun j hjc hjd hn => Nat.not_lt.mp fun hj => hn (hnext j hj hjc hjd)
    have hlt : order < maxOrder := by omega
    rw [largestOrderLoop, if_pos hlt]
    dsimp only
    split_ifs with hcount halign
    · exact ⟨hlt.le, hc, hd, fun j _ hjc hjd => hstop j hjc hjd fun h => by omega⟩
    · rw [bne_iff_ne, ne_eq, Nat.and_two_pow_sub_one_eq_mod] at halign
      exact ⟨hlt.le, hc, hd, fun j _ hjc hjd =>
        hstop j hjc hjd fun h => halign (Nat.mod_eq_zero_of_dvd h.2)⟩
    · -- the next block fits and is aligned: the loop goes on from it
      rw [bne_iff_ne, ne_eq, not_not, Nat.and_two_pow_sub_one_eq_mod] at halign
      exact largestOrderLoop_spec fuel (order + 1) (by omega) (Nat.not_lt.mp hcount)
        (Nat.dvd_of_mod_eq_zero halign)

/-- **`largest_order_for_aligned_run` is what its name says**: for a nonempty run, the
largest order up to `MAX_ORDER` whose block at `pageIdx` is aligned and fits in the run.  The
loop starts from order 0, whose block of one page fits and is aligned anywhere. -/
theorem largestOrderForAlignedRun_isGreatest (hc : 0 < pageCount) :
    IsGreatest {j | j ≤ maxOrder ∧ 2 ^ j ≤ pageCount ∧ 2 ^ j ∣ pageIdx}
      (largestOrderForAlignedRun pageIdx pageCount) := by
  obtain ⟨hk, hkc, hkd, hmax⟩ := largestOrderLoop_spec pageIdx pageCount maxOrder 0
    (Nat.zero_add _) (by rw [pow_zero]; exact hc) (by rw [pow_zero]; exact one_dvd _)
  exact ⟨⟨hk, hkc, hkd⟩, fun j ⟨hj, hjc, hjd⟩ => hmax j hj hjc hjd⟩

end Orders

/-- The run of the cursor's owner: the inner loop counts on from a prefix of pages of
`owner`, stays within the range, and counts only pages of `owner`. -/
theorem sameOwnerRun_spec (a : PageAllocator) (cursor remaining : Nat) (owner : UInt8) :
    ∀ fuel samePages, samePages ≤ remaining →
      (∀ i < samePages, loadPageOwner (a.pageOwners (cursor + i)) = owner) →
      samePages ≤ sameOwnerRun a cursor remaining owner fuel samePages ∧
        sameOwnerRun a cursor remaining owner fuel samePages ≤ remaining ∧
        ∀ i < sameOwnerRun a cursor remaining owner fuel samePages,
          loadPageOwner (a.pageOwners (cursor + i)) = owner
  | 0, _, hs, hown => ⟨le_rfl, hs, hown⟩
  | fuel + 1, samePages, hs, hown => by
    rw [sameOwnerRun]
    split_ifs with hnext
    · obtain ⟨h₁, h₂, h₃⟩ := sameOwnerRun_spec a cursor remaining owner fuel (samePages + 1)
        hnext.1 fun i hi => (Nat.lt_succ_iff_lt_or_eq.mp hi).elim (hown i) fun he => he ▸ hnext.2
      exact ⟨by omega, h₂, h₃⟩
    · exact ⟨le_rfl, hs, hown⟩

/-! ## One block of the walk -/

/-- What freeing the `n` pages from `lo` leaves: a well-formed allocator with exact counters
in which a client sees exactly those pages become free, of kind `FREE` with refcount zero,
and every other page not flagged free keeps its flag and its owner. -/
structure RangeFreed (a a' : PageAllocator) (lo n : Nat) : Prop where
  wf : WellFormed a'
  counted : Counted a'
  pageState_eq : pageState a' = fillRange (pageState a) lo n .free
  kinds_eq : a'.pageKinds = fillRange a.pageKinds lo n .free
  refcounts_eq : a'.pageRefcounts = fillRange a.pageRefcounts lo n 0
  base_eq : a'.base = a.base
  total_eq : a'.totalPages = a.totalPages
  frame : ∀ p, ¬ (lo ≤ p ∧ p < lo + n) → ¬ FreeFlag (a.pageFlags p) →
    a'.pageFlags p = a.pageFlags p ∧ a'.pageOwners p = a.pageOwners p

section Range

variable {a₁ a₂ : PageAllocator} {lo n m : Nat}

theorem fillRange_zero {α : Type} (f : Nat → α) (lo : Nat) (v : α) : fillRange f lo 0 v = f := by
  funext p
  rw [fillRange_apply, if_neg (by omega)]

/-- Filling two adjacent ranges fills their union. -/
theorem fillRange_fillRange {α : Type} (f : Nat → α) (lo n m : Nat) (v : α) :
    fillRange (fillRange f lo n v) (lo + n) m v = fillRange f lo (n + m) v := by
  funext p
  simp only [fillRange_apply]
  split_ifs <;> first | rfl | omega

theorem freePages_eq_fillRange (f : Nat → PageState) (h k : Nat) :
    freePages f h k = fillRange f h (2 ^ k) .free := by
  funext p
  simp only [freePages, fillRange_apply, mem_block]

theorem RangeFreed.refl (hl : WellFormed a) (hc : Counted a) (lo : Nat) : RangeFreed a a lo 0 :=
  ⟨hl, hc, (fillRange_zero _ _ _).symm, (fillRange_zero _ _ _).symm, (fillRange_zero _ _ _).symm,
    rfl, rfl, fun _ _ _ => ⟨rfl, rfl⟩⟩

/-- Freeing two adjacent ranges one after the other frees their union. -/
theorem RangeFreed.append (h₁ : RangeFreed a a₁ lo n) (h₂ : RangeFreed a₁ a₂ (lo + n) m) :
    RangeFreed a a₂ lo (n + m) := by
  refine ⟨h₂.wf, h₂.counted, ?_, ?_, ?_, h₂.base_eq.trans h₁.base_eq,
    h₂.total_eq.trans h₁.total_eq, fun p hp hf => ?_⟩
  · rw [h₂.pageState_eq, h₁.pageState_eq, fillRange_fillRange]
  · rw [h₂.kinds_eq, h₁.kinds_eq, fillRange_fillRange]
  · rw [h₂.refcounts_eq, h₁.refcounts_eq, fillRange_fillRange]
  · obtain ⟨hf₁, ho₁⟩ := h₁.frame p (by omega) hf
    obtain ⟨hf₂, ho₂⟩ := h₂.frame p (by omega) (by rw [hf₁]; exact hf)
    exact ⟨hf₂.trans hf₁, ho₂.trans ho₁⟩

/-- One block freed by `free_allocated_block` is a freed range. -/
theorem RangeFreed.of_freed {h k : Nat} {o : UInt8} (hc : Counted a) (hsp : OwnedSpan a h k o)
    (hF : Freed a a₁ h k)
    (hframe : ∀ p ∉ block h k, ¬ FreeFlag (a.pageFlags p) →
      a₁.pageFlags p = a.pageFlags p ∧ a₁.pageOwners p = a.pageOwners p) :
    RangeFreed a a₁ h (2 ^ k) :=
  ⟨hF.wf, hc.freed hsp hF, by rw [hF.pageState_eq, freePages_eq_fillRange], hF.kinds_eq,
    hF.refcounts_eq, hF.base_eq, hF.total_eq, fun p hp => hframe p fun h' => hp (mem_block.mp h')⟩

end Range

/-- An aligned block of pages of one owner, each flagged as an allocated head of order 0,
is an owned span. -/
theorem ownedSpan_of_run (hl : WellFormed a) {h k : Nat} {o : UInt8} (hk : k ≤ maxOrder)
    (hd : 2 ^ k ∣ h) (hfit : h + 2 ^ k ≤ a.totalPages)
    (hflags : ∀ p ∈ block h k, a.pageFlags p = flagAllocHead)
    (hown : ∀ p ∈ block h k, loadPageOwner (a.pageOwners p) = o) : OwnedSpan a h k o := by
  have hblk : ∀ p ∈ block h k, ∃ o', AllocBlock a p 0 o' := fun p hp =>
    hl.allocBlock_of_flag (by have := (mem_block.mp hp).2; omega) (Set.notMem_empty p)
      (hflags p hp)
  have hallocated : ∀ p ∈ block h k, pageState a p = .allocated o := fun p hp => by
    rw [pageState_of_allocHeadFlag (k := 0) (by decide)
      ((hflags p hp).trans flagAllocHead_eq), hown p hp]
  obtain ⟨o', hb⟩ := hblk h (head_mem_block h k)
  have ho : o' = o := by
    have := hb.pageState_eq (head_mem_block h 0)
    rw [hallocated h (head_mem_block h k)] at this
    exact (PageState.allocated.inj this).symm
  refine ⟨⟨hd, hk, hb.above_meta, hfit⟩, ho ▸ hb.owner_valid, hallocated,
    fun p hp H K hB hpB => ?_⟩
  obtain ⟨o'', hbp⟩ := hblk p hp
  rcases hB.eq_or_disjoint hbp.blk with ⟨rfl, rfl⟩ | hdisj
  · rw [block_zero, Set.singleton_subset_iff]
    exact hp
  · exact absurd (head_mem_block p 0) (Set.disjoint_left.mp hdisj hpB)

theorem not_freeFlag_allocHead : ¬ FreeFlag flagAllocHead := fun hf =>
  hf.not_allocHead (by decide)

/-! ## The release loop -/

/-- **The release loop of `free_order0_range_at`**: on a well-formed allocator with exact
counters in which the `remaining` pages from `cursor` are allocated order-0 pages, enough
fuel frees them all, one aligned run of one owner at a time, and adds their bytes. -/
theorem freeRangeLoop_spec : ∀ fuel cursor remaining freed (a : PageAllocator),
    WellFormed a → Counted a → remaining ≤ fuel → cursor + remaining ≤ a.totalPages →
    (∀ p, cursor ≤ p → p < cursor + remaining → a.pageFlags p = flagAllocHead) →
    ∃ a', freeRangeLoop fuel cursor remaining freed a = .ok (freed + remaining * pageSize, a') ∧
      RangeFreed a a' cursor remaining
  | 0, cursor, remaining, freed, a, hl, hc, hfuel, _, _ => by
    obtain rfl : remaining = 0 := by omega
    exact ⟨a, by rw [freeRangeLoop, Nat.zero_mul, Nat.add_zero], .refl hl hc cursor⟩
  | fuel + 1, cursor, remaining, freed, a, hl, hc, hfuel, hfit, hflags => by
    by_cases hz : remaining = 0
    · subst hz
      exact ⟨a, by rw [freeRangeLoop, if_pos rfl, Nat.zero_mul, Nat.add_zero], .refl hl hc cursor⟩
    obtain ⟨hs₁, hs₂, hsown⟩ := sameOwnerRun_spec a cursor remaining
      (loadPageOwner (a.pageOwners cursor)) remaining 1 (by omega)
      fun i hi => by rw [Nat.lt_one_iff.mp hi, Nat.add_zero]
    set samePages := sameOwnerRun a cursor remaining (loadPageOwner (a.pageOwners cursor))
      remaining 1
    obtain ⟨hk, hks, hkd⟩ := (largestOrderForAlignedRun_isGreatest cursor samePages (by omega)).1
    set order := largestOrderForAlignedRun cursor samePages
    have hpos := Nat.one_le_two_pow (n := order)
    have hsp : OwnedSpan a cursor order (loadPageOwner (a.pageOwners cursor)) :=
      ownedSpan_of_run hl hk hkd (by omega)
        (fun p hp => hflags p (mem_block.mp hp).1 (by have := (mem_block.mp hp).2; omega))
        fun p hp => by
          have := mem_block.mp hp
          have := hsown (p - cursor) (by omega)
          rwa [Nat.add_sub_cancel' (by omega)] at this
    obtain ⟨a₁, hres, hF, hframe⟩ := freeAllocatedBlock_of_ownedSpan hl hsp
    have hR₁ := RangeFreed.of_freed hc hsp hF hframe
    obtain ⟨a', hrun, hR₂⟩ := freeRangeLoop_spec fuel (cursor + 2 ^ order)
      (remaining - 2 ^ order) (freed + 2 ^ order * pageSize) a₁ hR₁.wf hR₁.counted (by omega)
      (by rw [hR₁.total_eq]; omega) fun p hp₁ hp₂ => by
        have hf := hflags p (by omega) (by omega)
        have hnf : ¬ FreeFlag (a.pageFlags p) := by
          rw [hf]
          exact not_freeFlag_allocHead
        rw [(hR₁.frame p (by omega) hnf).1]
        exact hf
    have hsplit : 2 ^ order + (remaining - 2 ^ order) = remaining := by omega
    refine ⟨a', ?_, hsplit ▸ hR₁.append hR₂⟩
    rw [freeRangeLoop, if_neg hz]
    show (freeAllocatedBlock a cursor order true >>= fun x =>
      freeRangeLoop fuel (cursor + 2 ^ order) (remaining - 2 ^ order) (freed + x.1) x.2) = _
    simp only [hres, ok_bind]
    rw [hrun, Nat.add_assoc, ← Nat.add_mul, hsplit]

/-! ## `free_order0_range_at` -/

/-- The checks `free_order0_range_at` makes of one page pass: an allocated order-0 page
with no reference left, of no slab kind and with no live kmalloc header. -/
def RangePageOk (a : PageAllocator) (p : Nat) : Prop :=
  a.pageFlags p = flagAllocHead ∧ a.pageRefcounts p = 0 ∧ pageHasLiveSlabKind a p = false ∧
    pageHasLiveMediumAllocMagic a p = false ∧ pageHasLiveLargeAllocMagic a p = false

/-- The check loop refuses the range, panics on a live kmalloc header, or passes, and it
passes only when every page passes. -/
theorem rangeIsFreeable_cases (a : PageAllocator) : ∀ ps : List Nat,
    rangeIsFreeable a ps = .ok false ∨
      rangeIsFreeable a ps = .error "page_free called on live kmalloc medium alloc" ∨
      rangeIsFreeable a ps = .error "page_free called on live kmalloc large alloc" ∨
      (rangeIsFreeable a ps = .ok true ∧ ∀ p ∈ ps, RangePageOk a p)
  | [] => .inr (.inr (.inr ⟨rfl, fun _ hp => absurd hp List.not_mem_nil⟩))
  | p :: ps => by
    rw [rangeIsFreeable]
    split_ifs with hf hr hs hm hg
    · exact .inl rfl
    · exact .inl rfl
    · exact .inl rfl
    · exact .inr (.inl rfl)
    · exact .inr (.inr (.inl rfl))
    · have hp : RangePageOk a p := by
        simp only [bne_iff_ne, ne_eq, not_not, Bool.not_eq_true] at hf hr hs hm hg
        exact ⟨hf, hr, hs, hm, hg⟩
      rcases rangeIsFreeable_cases a ps with h | h | h | ⟨h, hall⟩
      · exact .inl h
      · exact .inr (.inl h)
      · exact .inr (.inr (.inl h))
      · exact .inr (.inr (.inr ⟨h, fun q hq =>
          (List.mem_cons.mp hq).elim (fun he => he ▸ hp) (hall q)⟩))

/-- The check loop passes a list of pages that all pass. -/
theorem rangeIsFreeable_of_ok (a : PageAllocator) :
    ∀ ps : List Nat, (∀ p ∈ ps, RangePageOk a p) → rangeIsFreeable a ps = .ok true
  | [], _ => rfl
  | p :: ps, hall => by
    obtain ⟨hf, hr, hs, hm, hg⟩ := hall p (List.mem_cons_self ..)
    rw [rangeIsFreeable, hf, hr, hs, hm, hg]
    simp only [bne_self_eq_false, Bool.false_eq_true, if_false]
    exact rangeIsFreeable_of_ok a ps fun q hq => hall q (List.mem_cons_of_mem p hq)

theorem mem_range_map_add {lo n p : Nat} :
    p ∈ (List.range n).map (lo + ·) ↔ lo ≤ p ∧ p < lo + n := by
  simp only [List.mem_map, List.mem_range]
  constructor
  · rintro ⟨i, hi, rfl⟩
    omega
  · intro hp
    exact ⟨p - lo, by omega, by omega⟩

/-- **`free_order0_range_at` frees a range that passes its checks**: on a well-formed
allocator with exact counters, when every page of a nonempty range in the zone is an
allocated order-0 page with no reference left, no slab kind and no live kmalloc header,
the call returns the range's bytes, a client sees exactly its pages become free, and the
layout and the counters stay exact. -/
theorem freeOrder0RangeAt_of_ok (hl : WellFormed a) (hc : Counted a) {pageIdx pageCount : Nat}
    (hpos : 0 < pageCount) (hfit : pageIdx + pageCount ≤ a.totalPages)
    (hok : ∀ p, pageIdx ≤ p → p < pageIdx + pageCount → RangePageOk a p) :
    ∃ a', freeOrder0RangeAt a pageIdx pageCount = .ok (pageCount * pageSize, a') ∧
      RangeFreed a a' pageIdx pageCount := by
  have hcheck := rangeIsFreeable_of_ok a ((List.range pageCount).map (pageIdx + ·)) fun p hp =>
    hok p (mem_range_map_add.mp hp).1 (mem_range_map_add.mp hp).2
  obtain ⟨a', hrun, hR⟩ := freeRangeLoop_spec pageCount pageIdx pageCount 0 a hl hc le_rfl hfit
    fun p hp₁ hp₂ => (hok p hp₁ hp₂).1
  refine ⟨a', ?_, hR⟩
  rw [freeOrder0RangeAt, if_neg (by omega)]
  simp only [hcheck, ok_bind, if_true]
  rw [hrun, Nat.zero_add]

/-- `free_order0_range_at` on a well-formed allocator with exact counters: it leaves a
range it does not take as it is, panics on a live kmalloc header, or frees a range whose
pages all pass the checks. -/
theorem freeOrder0RangeAt_spec (hl : WellFormed a) (hc : Counted a) (pageIdx pageCount : Nat) :
    freeOrder0RangeAt a pageIdx pageCount = .ok (0, a) ∨
      freeOrder0RangeAt a pageIdx pageCount =
        .error "page_free called on live kmalloc medium alloc" ∨
      freeOrder0RangeAt a pageIdx pageCount =
        .error "page_free called on live kmalloc large alloc" ∨
      ∃ a', freeOrder0RangeAt a pageIdx pageCount = .ok (pageCount * pageSize, a') ∧
        (∀ p, pageIdx ≤ p → p < pageIdx + pageCount → RangePageOk a p) ∧
        RangeFreed a a' pageIdx pageCount := by
  by_cases hg : pageCount = 0 ∨ a.totalPages ≤ pageIdx ∨ a.totalPages - pageIdx < pageCount
  · exact .inl (by rw [freeOrder0RangeAt, if_pos hg])
  have hfit : pageIdx + pageCount ≤ a.totalPages := by omega
  rw [freeOrder0RangeAt, if_neg hg]
  -- the check loop decides before the walk frees anything
  rcases rangeIsFreeable_cases a ((List.range pageCount).map (pageIdx + ·)) with
    h | h | h | ⟨h, hok⟩
  · exact .inl (by simp only [h, ok_bind, Bool.false_eq_true, if_false, pure_eq_ok])
  · exact .inr (.inl (by rw [h, error_bind]))
  · exact .inr (.inr (.inl (by rw [h, error_bind])))
  · have hok' : ∀ p, pageIdx ≤ p → p < pageIdx + pageCount → RangePageOk a p :=
      fun p hp₁ hp₂ => hok p (mem_range_map_add.mpr ⟨hp₁, hp₂⟩)
    obtain ⟨a', hrun, hR⟩ := freeRangeLoop_spec pageCount pageIdx pageCount 0 a hl hc le_rfl hfit
      fun p hp₁ hp₂ => (hok' p hp₁ hp₂).1
    refine .inr (.inr (.inr ⟨a', ?_, hok', hR⟩))
    simp only [h, ok_bind, if_true]
    rw [hrun, Nat.zero_add]

end Wos.PageAlloc
