import WosKernel.PageAllocFree

/-! # The order-0 paths and the page cache

`alloc_order0` takes one page off `free_list[0]` and never splits a larger block.  Where it
finds a page it is exact: on a well-formed allocator it computes what `alloc` of one page
computes (`allocOrder0_eq_alloc`); where `free_list[0]` is empty it returns null even when
`alloc` would split.

The page cache holds free order-0 pages outside the lists, flagged `FLAG_CACHED_ORDER0`.
`claim_free_order0_for_cache` takes a page off `free_list[0]` into the cache and
`cache_allocated_order0` one from its owner; `alloc_cached_order0_at` hands a cached page
to an owner and `release_cached_order0_at` gives it back to the lists.  Each keeps the
layout and the counters exact (`Layout.cacheSetAside`, `Layout.uncache` and the `_spec`
lemmas), and on the page-set view each moves exactly one page between free, cached and
allocated.
-/

namespace Wos.PageAlloc

open Buddy

variable {a : PageAllocator}

/-! ## One page -/

section Page

variable {h p : Nat} {f : UInt8} {kind : PageKind} {o : UInt8} {r : Nat}

theorem storePage_agree (a : PageAllocator) (h : Nat) (f : UInt8) (kind : PageKind) (o : UInt8)
    (r : Nat) : Agree a (storePage a h f kind o r) {h}ᶜ :=
  ⟨rfl, rfl, fun _ hp => Function.update_of_ne hp _ _, fun _ hp => Function.update_of_ne hp _ _,
    fun _ hp => Function.update_of_ne hp _ _, fun _ hp => Function.update_of_ne hp _ _⟩

@[simp] theorem storePage_flags_self : (storePage a h f kind o r).pageFlags h = f :=
  Function.update_self _ _ _

/-- The stores leave the page as a free page keeps it. -/
theorem storePage_pageFree : PageFree (storePage a h f .free ownerInvalid 0) h :=
  ⟨Function.update_self _ _ _, by
    rw [show (storePage a h f .free ownerInvalid 0).pageOwners h = ownerInvalid from
      Function.update_self _ _ _, loadPageOwner_ownerInvalid], Function.update_self _ _ _⟩

theorem storePage_clearAllocatedBlock (a : PageAllocator) :
    storePage (clearAllocatedBlock a h (2 ^ 0)) h f kind o r = storePage a h f kind o r := by
  simp only [storePage, clearAllocatedBlock, pow_zero, fillRange_one, Function.update_idem]

/-- The marking loops of `alloc` for one page are the stores of `alloc_order0`. -/
theorem markAllocated_zero (a : PageAllocator) (h : Nat) (owner : UInt8) :
    markAllocated a h 0 owner = storePage a h flagAllocHead .normal owner 1 := by
  have hflags : Function.update (fillRange a.pageFlags (h + 1) (2 ^ 0 - 1) flagAllocCont) h
      (allocHeadFlag 0) = Function.update a.pageFlags h flagAllocHead := by
    funext p
    by_cases hp : p = h
    · subst hp
      rw [Function.update_self, Function.update_self]
      rfl
    · rw [Function.update_of_ne hp, Function.update_of_ne hp, fillRange_apply, pow_zero,
        if_neg (by omega)]
  rw [markAllocated, hflags]
  simp only [storePage, pow_zero, fillRange_one]

theorem pageState_storePage_of_ne (hp : p ≠ h) :
    pageState (storePage a h f kind o r) p = pageState a p :=
  pageState_congr (Function.update_of_ne hp _ _) (Function.update_of_ne hp _ _)

/-- A client sees a cached page as cached. -/
theorem pageState_storePage_cached :
    pageState (storePage a h flagCachedOrder0 kind o r) = Function.update (pageState a) h .cached := by
  funext p
  by_cases hp : p = h
  · subst hp
    rw [Function.update_self, pageState, storePage_flags_self, if_neg (by decide), if_pos rfl]
  · rw [Function.update_of_ne hp, pageState_storePage_of_ne hp]

/-- A change of the tables at `h` alone, where the flag was no allocated head and stays
none, changes no owner's heads. -/
theorem ownedHeads_of_agree {a' : PageAllocator} (hag : Agree a a' {h}ᶜ)
    (hf : ¬ a'.pageFlags h &&& 0xC0 = flagAllocHead)
    (ha : ¬ a.pageFlags h &&& 0xC0 = flagAllocHead) (o' : UInt8) :
    ownedHeads a' o' = ownedHeads a o' := by
  ext p
  simp only [ownedHeads, Finset.mem_filter, Finset.mem_range, hag.total_eq]
  by_cases hp : p = h
  · subst hp
    simp only [hf, ha, false_and, and_false]
  · rw [hag.flags p hp, hag.owners p hp]

/-- Moving one page between states that are no allocation leaves every owner's pages. -/
theorem ownedIn_update {n : Nat} {m : Nat → PageState} {s : PageState}
    (hs : ∀ o', s ≠ .allocated o') (hm : ∀ o', m h ≠ .allocated o') (o' : UInt8) :
    ownedIn n (Function.update m h s) o' = ownedIn n m o' := by
  refine ownedIn_congr fun p _ => ?_
  by_cases hp : p = h
  · subst hp
    rw [Function.update_self]
    exact ⟨fun e => absurd e (hs o'), fun e => absurd e (hm o')⟩
  · rw [Function.update_of_ne hp]

end Page

/-! ## Taking the head of `free_list[0]` -/

section Take

variable {h : Nat} {ptr : Nat} {rest : List Nat}

/-- A listed head of order 0 is reusable. -/
theorem order0FreeHeadIsReusable_of_mem (hl : WellFormed a)
    (hmem : pageToPtr a.base h ∈ a.freeList 0) (hb : FreeBlock a h 0) :
    order0FreeHeadIsReusable a (pageToPtr a.base h) = true := by
  have hf := hb.free h (head_mem_block h 0)
  simp only [order0FreeHeadIsReusable, ptrToPage_pageToPtr, hl.valid_of_mem (Nat.zero_le _) hmem,
    hf.kind, hf.refcount, hf.owner, beq_self_eq_true, Bool.and_self]

theorem takeFreeOrder0_of_nil (hn : a.freeList 0 = []) : takeFreeOrder0 a = .ok (none, a) := by
  rw [takeFreeOrder0, hn]

/-- **The start of the order-0 paths** on a well-formed allocator: the head of
`free_list[0]` is a free page, and it unlinks with no repair. -/
theorem takeFreeOrder0_of_cons (hl : WellFormed a) (hlist : a.freeList 0 = ptr :: rest) :
    ∃ h, ptr = pageToPtr a.base h ∧ FreeBlock a h 0 ∧
      takeFreeOrder0 a = .ok (some h, a.setFreeList 0 rest) := by
  have hmem : ptr ∈ a.freeList 0 := by
    rw [hlist]
    exact List.mem_cons_self ..
  obtain ⟨h, rfl, hb, -, -⟩ := hl.mem_freeList (Nat.zero_le _) hmem
  have hrm := removeFreeBlockWithRepair_of_valid hmem (hl.listsValid 0 (Nat.zero_le _))
  rw [hlist, List.erase_cons_head] at hrm
  refine ⟨h, rfl, hb, ?_⟩
  simp only [takeFreeOrder0, hlist, order0FreeHeadIsReusable_of_mem hl hmem hb, if_true, ok_bind,
    pure_eq_ok, hrm]
  rw [show (a.setFreeList 0 rest).base = a.base from rfl, ptrToPage_pageToPtr]

end Take

/-! ## `alloc_order0` -/

section AllocOrder0

variable {owner : UInt8}

theorem allocOrder0_of_nil (hn : a.freeList 0 = []) : allocOrder0 a owner = .ok (0, a) := by
  simp only [allocOrder0, takeFreeOrder0_of_nil hn, ok_bind, pure_eq_ok]

/-- **The order-0 fast path is exact**: on a well-formed allocator whose `free_list[0]`
holds a page, `alloc_order0` computes what `alloc` of one page computes. -/
theorem allocOrder0_eq_alloc (hl : WellFormed a) (hne : a.freeList 0 ≠ []) :
    allocOrder0 a owner = alloc a pageSize owner := by
  obtain ⟨ptr, rest, hlist⟩ := List.exists_cons_of_ne_nil hne
  obtain ⟨h, rfl, hb, htake⟩ := takeFreeOrder0_of_cons hl hlist
  have hord : sizeToOrder pageSize = some 0 := by decide
  rcases allocSearch_spec hl.listsValid false (maxOrder + 1 - 0) 0 (by omega) with
    ⟨hall, -⟩ | ⟨j, ptr', rest', -, -, hbelow, hlj, hfound⟩
  · exact absurd (hall 0 le_rfl (Nat.zero_le _)) hne
  · obtain rfl : j = 0 := by
      by_contra hj
      exact hne (hbelow 0 le_rfl (Nat.pos_of_ne_zero hj))
    rw [hlist, List.cons.injEq] at hlj
    obtain ⟨rfl, rfl⟩ := hlj
    have hb₁ : FreeBlock (a.setFreeList 0 rest) h 0 :=
      hb.congr ⟨rfl, rfl, fun _ _ => rfl, fun _ _ => rfl, fun _ _ => rfl, fun _ _ => rfl⟩
    have hre := freeBlockPagesAreReusable_of_freeBlock hb₁ hl.total_lt
    simp only [alloc, hord, hfound, ptrToPage_pageToPtr, ok_bind, pure_eq_ok, hre, if_true,
      splitLoop, allocOrder0, htake, markAllocated_zero, pow_zero]
    rfl

/-- **`alloc_order0` on a well-formed allocator**: null, with nothing changed, when
`free_list[0]` is empty; otherwise the page at its head, now allocated to `owner`. -/
theorem allocOrder0_spec (hl : WellFormed a) (hown : physicalPageOwnerIsValid owner = true) :
    (a.freeList 0 = [] ∧ allocOrder0 a owner = .ok (0, a)) ∨
      (a.freeList 0 ≠ [] ∧ ∃ h a', allocOrder0 a owner = .ok (pageToPtr a.base h, a') ∧
        Allocated a a' h 0 owner) := by
  by_cases hn : a.freeList 0 = []
  · exact Or.inl ⟨hn, allocOrder0_of_nil hn⟩
  · rw [allocOrder0_eq_alloc hl hn]
    rcases alloc_spec hl hown (show sizeToOrder pageSize = some 0 by decide) with
      ⟨hall, -⟩ | ⟨-, hres⟩
    · exact absurd (hall 0 le_rfl (Nat.zero_le _)) hn
    · exact Or.inr ⟨hn, hres⟩

end AllocOrder0

/-! ## Into the cache -/

section Cache

variable {h : Nat}

/-- **A set-aside free page becomes a cached page**: the hole closes, and a client sees the
page cached. -/
theorem Layout.cacheSetAside (hl : Layout a (block h 0)) (hs : FreeSpan a h 0)
    (hhead : pageState a h = .free) :
    Layout (storePage a h flagCachedOrder0 .free ownerInvalid 0) ∅ ∧
      pageState (storePage a h flagCachedOrder0 .free ownerInvalid 0) =
        Function.update (pageState a) h .cached := by
  have hps : pageState (storePage a h flagCachedOrder0 .free ownerInvalid 0) =
      Function.update (pageState a) h .cached := pageState_storePage_cached
  have hl' : Layout (storePage a h flagCachedOrder0 .free ownerInvalid 0) (block h 0) :=
    hl.congr (by rw [block_zero]) (storePage_agree a h _ _ _ _)
      (fun p hp => (Set.mem_singleton_iff.mp hp) ▸ hs.above_meta) rfl rfl
      (fun o => by
        rw [hps]
        exact ownedIn_update (fun _ => PageState.noConfusion)
          (fun _ => by rw [hhead]; exact PageState.noConfusion) o)
      (ownedHeads_of_agree (storePage_agree a h _ _ _ _) (by rw [storePage_flags_self]; decide)
        (not_allocHead_of_pageState_free hhead)) rfl rfl
  refine ⟨hl'.close (fun p hp _ _ => ?_) (fun p hp k hk => ?_), hps⟩
  · rw [block_zero, Set.mem_singleton_iff] at hp
    subst hp
    exact .cached storePage_flags_self storePage_pageFree
  · rw [block_zero, Set.mem_singleton_iff] at hp
    subst hp
    rw [storePage_flags_self]
    exact (freeHeadFlag_ne_cached (order_lt_32 hk)).symm

/-- **`claim_free_order0_for_cache`** on a well-formed allocator with exact counters: with
`free_list[0]` empty it finds nothing and changes nothing; otherwise the free page at its
head becomes a cached page, the layout and the counters stay exact. -/
theorem claimFreeOrder0ForCache_spec (hl : WellFormed a) (hc : Counted a) :
    (a.freeList 0 = [] ∧ claimFreeOrder0ForCache a = .ok ((0, 0), a)) ∨
      ∃ h a', claimFreeOrder0ForCache a = .ok ((pageToPtr a.base h, h), a') ∧
        pageState a h = .free ∧ WellFormed a' ∧ Counted a' ∧
        pageState a' = Function.update (pageState a) h .cached ∧ a'.base = a.base := by
  cases hlist : a.freeList 0 with
  | nil =>
    refine Or.inl ⟨rfl, ?_⟩
    simp only [claimFreeOrder0ForCache, takeFreeOrder0_of_nil hlist, ok_bind, pure_eq_ok]
  | cons ptr rest =>
    obtain ⟨h, rfl, hb, htake⟩ := takeFreeOrder0_of_cons hl hlist
    have hpop := hl.pop (Nat.zero_le _) hlist hb
    have hb₁ : FreeBlock (a.setFreeList 0 rest) h 0 :=
      hb.congr ⟨rfl, rfl, fun _ _ => rfl, fun _ _ => rfl, fun _ _ => rfl, fun _ _ => rfl⟩
    have hhead : pageState (a.setFreeList 0 rest) h = .free :=
      hb₁.pageState_eq (head_mem_block h 0)
    obtain ⟨hl₂, hps₂⟩ := hpop.cacheSetAside hb₁.toFreeSpan hhead
    set a₂ := storePage (a.setFreeList 0 rest) h flagCachedOrder0 .free ownerInvalid 0
    have hh : h < a.totalPages := by have := hb.fits; omega
    refine Or.inr ⟨h, { a₂ with cachedOrder0Count := a₂.cachedOrder0Count + 1 }, ?_, hhead,
      hl₂.setCounts _ _, hc.of_update hh rfl hl.total_lt hps₂ ?_ ?_, hps₂, rfl⟩
    · simp only [claimFreeOrder0ForCache, htake, ok_bind, pure_eq_ok]
      rfl
    · rw [show pageState a h = .free from hhead, if_pos (Or.inl rfl), if_pos (Or.inr rfl)]
      rfl
    · rw [show pageState a h = .free from hhead, if_neg PageState.noConfusion, if_pos rfl]
      exact add_zero _

/-- A page that `free`'s clearing set free and the cache then took is as if the cache had
taken it directly. -/
theorem update_freePages_zero (m : Nat → PageState) (h : Nat) (s : PageState) :
    Function.update (freePages m h 0) h s = Function.update m h s := by
  funext p
  by_cases hp : p = h
  · subst hp
    rw [Function.update_self, Function.update_self]
  · rw [Function.update_of_ne hp, Function.update_of_ne hp,
      freePages_of_not_mem (by rw [block_zero]; exact hp)]

/-- **An allocated page goes into the cache**: its owner gives back the page and its
object, and a client sees the page cached. -/
theorem Layout.cacheAllocated {o : UInt8} (hl : Layout a ∅) (hb : AllocBlock a h 0 o) :
    ∃ a₁, accountOwnerFree a o 1 1 = .ok a₁ ∧
      WellFormed (storePage a₁ h flagCachedOrder0 .free ownerInvalid 0) ∧
      pageState (storePage a₁ h flagCachedOrder0 .free ownerInvalid 0) =
        Function.update (pageState a) h .cached ∧
      counts (storePage a₁ h flagCachedOrder0 .free ownerInvalid 0) = counts a := by
  -- the clearing of `free_allocated_block` sets the page aside, and the cache takes it
  obtain ⟨a₁, hrel, hl₂, hs₂, -, hps₂, -, -, -, hc₂, -⟩ := hl.clearSpan hb.ownedSpan
  have hhead : pageState (clearAllocatedBlock a₁ h (2 ^ 0)) h = .free := by
    rw [hps₂, freePages_of_mem (head_mem_block h 0)]
  obtain ⟨hl₃, hps₃⟩ := hl₂.cacheSetAside hs₂ hhead
  rw [storePage_clearAllocatedBlock] at hl₃ hps₃
  exact ⟨a₁, (releaseBlockOwner_eq hb).symm.trans hrel, hl₃,
    by rw [hps₃, hps₂, update_freePages_zero], hc₂⟩

/-- The address of a page of the zone passes `ptr_in_zone` and is not null. -/
theorem zoneAddr_of_page (hl : WellFormed a) (hpos : 0 < h) (ht : h < a.totalPages) :
    (pageToPtr a.base h == 0 || !ptrInZone a (pageToPtr a.base h)) = false := by
  rw [ptrInZone_pageToPtr hl.base_aligned hpos ht, Bool.not_true, Bool.or_false]
  exact beq_eq_false_iff_ne.mpr (pageToPtr_ne_zero hpos)

theorem flagAllocHead_eq : flagAllocHead = allocHeadFlag 0 := by decide

/-- What `cache_allocated_order0` does at the address of an allocated order-0 page: the
refcount, slab and kmalloc checks, then the release to the cache. -/
theorem cacheAllocatedOrder0_of_head {o : UInt8} (hl : WellFormed a) (hb : AllocBlock a h 0 o) :
    cacheAllocatedOrder0 a (pageToPtr a.base h) =
      if a.pageRefcounts h != 1 then .ok ((false, 0), a)
      else if pageHasLiveSlabKind a h then .ok ((false, 0), a)
      else if pageHasLiveMediumAllocMagic a h then
        .error "page_free called on live kmalloc medium alloc"
      else if pageHasLiveLargeAllocMagic a h then
        .error "page_free called on live kmalloc large alloc"
      else (do
        let a ← accountOwnerFree a o 1 1
        let a := storePage a h flagCachedOrder0 .free ownerInvalid 0
        pure ((true, h), { a with
          freeCount := a.freeCount + 1, cachedOrder0Count := a.cachedOrder0Count + 1 })) := by
  have hpos : 0 < h := Nat.lt_of_lt_of_le hl.meta_pos hb.above_meta
  have ht : h < a.totalPages := by have := hb.fits; omega
  have hown : loadPageOwner (a.pageOwners h) = o := by
    rw [hb.owner h (head_mem_block h 0), loadPageOwner, if_pos hb.owner_valid]
  have hlive : (decide (a.totalPages ≤ h) || a.pageFlags h != flagAllocHead) = false := by
    rw [hb.head, ← flagAllocHead_eq, Bool.or_eq_false_iff, decide_eq_false_iff_not]
    exact ⟨Nat.not_le.mpr ht, bne_self_eq_false _⟩
  rw [cacheAllocatedOrder0, zoneAddr_of_page hl hpos ht]
  simp only [Bool.false_eq_true, if_false, ptrToPage_pageToPtr, hlive, hown]

/-- An address that passes the null and zone checks is the address of a page of the zone. -/
theorem page_of_zoneAddr {ptr : Nat} (hl : WellFormed a)
    (hz : ¬ (ptr == 0 || !ptrInZone a ptr) = true) :
    ptr = pageToPtr a.base (ptrToPage a.base ptr) ∧ ptrToPage a.base ptr < a.totalPages := by
  simp only [Bool.or_eq_true, beq_iff_eq, Bool.not_eq_true', not_or, Bool.not_eq_false] at hz
  obtain ⟨hp, ht⟩ := pageToPtr_ptrToPage hl.base_aligned hz.2
  exact ⟨hp.symm, ht⟩

/-- `cache_allocated_order0` of an address that is no allocated order-0 page refuses it and
changes nothing. -/
theorem cacheAllocatedOrder0_of_not_head {ptr : Nat} (hl : WellFormed a)
    (hptr : ∀ h < a.totalPages, ptr = pageToPtr a.base h → a.pageFlags h ≠ flagAllocHead) :
    cacheAllocatedOrder0 a ptr = .ok ((false, 0), a) := by
  rw [cacheAllocatedOrder0]
  by_cases hz : (ptr == 0 || !ptrInZone a ptr) = true
  · rw [if_pos hz]
  · rw [if_neg hz]
    obtain ⟨hp, ht⟩ := page_of_zoneAddr hl hz
    have hflag : (decide (a.totalPages ≤ ptrToPage a.base ptr) ||
        a.pageFlags (ptrToPage a.base ptr) != flagAllocHead) = true := by
      rw [Bool.or_eq_true, bne_iff_ne]
      exact Or.inr (hptr _ ht hp)
    rw [if_pos hflag]

/-- **`cache_allocated_order0` on a well-formed allocator with exact counters**: it panics
only on a live kmalloc header; it refuses, changing nothing, anything but an allocated
order-0 page; and otherwise the page goes into the cache with the layout and the counters
exact. -/
theorem cacheAllocatedOrder0_spec (hl : WellFormed a) (hc : Counted a) (ptr : Nat) :
    cacheAllocatedOrder0 a ptr = .ok ((false, 0), a) ∨
      cacheAllocatedOrder0 a ptr = .error "page_free called on live kmalloc medium alloc" ∨
      cacheAllocatedOrder0 a ptr = .error "page_free called on live kmalloc large alloc" ∨
      ∃ h o a', ptr = pageToPtr a.base h ∧ AllocBlock a h 0 o ∧
        cacheAllocatedOrder0 a ptr = .ok ((true, h), a') ∧ WellFormed a' ∧ Counted a' ∧
        pageState a' = Function.update (pageState a) h .cached ∧ a'.base = a.base := by
  by_cases hlive : ∃ h < a.totalPages, ptr = pageToPtr a.base h ∧ a.pageFlags h = flagAllocHead
  · obtain ⟨h, ht, rfl, hf⟩ := hlive
    obtain ⟨o, hb⟩ := hl.allocBlock_of_flag ht (Set.notMem_empty h) hf
    rw [cacheAllocatedOrder0_of_head hl hb]
    by_cases hr : (a.pageRefcounts h != 1) = true
    · exact Or.inl (if_pos hr)
    rw [if_neg hr]
    by_cases hs : pageHasLiveSlabKind a h = true
    · exact Or.inl (if_pos hs)
    rw [if_neg hs]
    by_cases hm : pageHasLiveMediumAllocMagic a h = true
    · exact Or.inr (Or.inl (if_pos hm))
    rw [if_neg hm]
    by_cases hg : pageHasLiveLargeAllocMagic a h = true
    · exact Or.inr (Or.inr (Or.inl (if_pos hg)))
    rw [if_neg hg]
    obtain ⟨a₁, hacc, hl₂, hps₂, hc₂⟩ := hl.cacheAllocated hb
    simp only [counts, Prod.mk.injEq] at hc₂
    set a₂ := storePage a₁ h flagCachedOrder0 .free ownerInvalid 0
    have hown : pageState a h = .allocated o := hb.pageState_eq (head_mem_block h 0)
    refine Or.inr (Or.inr (Or.inr ⟨h, o, { a₂ with
      freeCount := a₂.freeCount + 1, cachedOrder0Count := a₂.cachedOrder0Count + 1 }, rfl, hb,
      by simp only [hacc, ok_bind, pure_eq_ok]; rfl, hl₂.setCounts _ _,
      hc.of_update (by have := hb.fits; omega) hc₂.1 hl.total_lt hps₂ ?_ ?_, hps₂, ?_⟩))
    · rw [hown, if_neg (by simp), if_pos (Or.inr rfl), hc₂.2.1]
      exact add_zero _
    · rw [hown, if_neg PageState.noConfusion, if_pos rfl, hc₂.2.2]
      exact add_zero _
    · show a₁.base = a.base
      simp only [accountOwnerFree] at hacc
      split_ifs at hacc
      cases hacc
      rfl
  · refine Or.inl (cacheAllocatedOrder0_of_not_head hl fun h ht hp hf => hlive ⟨h, ht, hp, hf⟩)

end Cache

/-! ## Out of the cache -/

section Uncache

variable {h : Nat} {owner : UInt8}

/-- A cached page keeps both counters above zero. -/
theorem Counted.ne_zero_of_cached (hc : Counted a) (ht : h < a.totalPages)
    (hs : pageState a h = .cached) : a.freeCount ≠ 0 ∧ a.cachedOrder0Count ≠ 0 := by
  have hf : 0 < (freeIn a.totalPages (pageState a)).card :=
    Finset.card_pos.mpr ⟨h, Finset.mem_filter.mpr ⟨Finset.mem_range.mpr ht, Or.inr hs⟩⟩
  have hcc : 0 < (cachedIn a.totalPages (pageState a)).card :=
    Finset.card_pos.mpr ⟨h, Finset.mem_filter.mpr ⟨Finset.mem_range.mpr ht, hs⟩⟩
  rw [← hc.free_count] at hf
  rw [← hc.cached_count] at hcc
  exact ⟨fun e => by simp [e] at hf, fun e => by simp [e] at hcc⟩

theorem allocPages_zero (m : Nat → PageState) (h : Nat) (owner : UInt8) :
    allocPages m h 0 owner = Function.update m h (.allocated owner) := by
  funext p
  by_cases hp : p = h
  · subst hp
    rw [allocPages_of_mem (head_mem_block p 0), Function.update_self]
  · rw [allocPages_of_not_mem (by rw [block_zero]; exact hp), Function.update_of_ne hp]

/-- The clearing of one page overwrites the flag `release_cached_order0_at` sets. -/
theorem clearAllocatedBlock_setFlag (a : PageAllocator) (f : UInt8) :
    clearAllocatedBlock (a.setFlag h f) h (2 ^ 0) = clearAllocatedBlock a h (2 ^ 0) := by
  simp only [clearAllocatedBlock, PageAllocator.setFlag, pow_zero, fillRange_one,
    Function.update_idem]

/-- **A cached page is set aside again**: cleared as `free_allocated_block` clears a page,
it is the hole of a layout and a free span of order 0, and a client sees it free. -/
theorem Layout.uncache (hl : Layout a ∅) (ht : h < a.totalPages)
    (hcf : a.pageFlags h = flagCachedOrder0) :
    Layout (clearAllocatedBlock a h (2 ^ 0)) (block h 0) ∧
      FreeSpan (clearAllocatedBlock a h (2 ^ 0)) h 0 ∧
      (clearAllocatedBlock a h (2 ^ 0)).pageFlags h = flagFreeInterior ∧
      pageState (clearAllocatedBlock a h (2 ^ 0)) = Function.update (pageState a) h .free := by
  have hm : a.metadataPages ≤ h := by
    by_contra hlt
    rw [hl.reserved h (by omega)] at hcf
    exact absurd hcf (by decide)
  have hag := clearAllocatedBlock_agree a h 0
  rw [block_zero] at hag
  have hflag := (clearAllocatedBlock_of_mem (a := a) (head_mem_block h 0)).1
  have hps : pageState (clearAllocatedBlock a h (2 ^ 0)) =
      Function.update (pageState a) h .free := by
    funext p
    by_cases hp : p = h
    · subst hp
      rw [Function.update_self]
      exact pageState_of_interior hflag
    · rw [Function.update_of_ne hp]
      exact pageState_congr (hag.flags p hp) (hag.owners p hp)
  have hopen : Layout a (block h 0) := by
    refine hl.openHole (fun p hp H K hB => ?_) (fun p hp k hk => ?_) <;>
      rw [block_zero, Set.mem_singleton_iff] at hp <;> subst hp
    · exact hB.not_mem_of_cached hcf
    · rw [hcf]
      exact (freeHeadFlag_ne_cached (order_lt_32 hk)).symm
  have hcached : pageState a h = .cached := pageState_eq_cached_iff.mpr hcf
  have hs : FreeSpan (clearAllocatedBlock a h (2 ^ 0)) h 0 :=
    { aligned := by rw [pow_zero]; exact one_dvd h
      order_le := Nat.zero_le _
      above_meta := hm
      fits := by rw [pow_zero]; exact ht
      interior := fun p hp hne => absurd (by rwa [block_zero, Set.mem_singleton_iff] at hp) hne
      free := fun p hp => (clearAllocatedBlock_of_mem hp).2 }
  refine ⟨hopen.congr (by rw [block_zero]) hag (fun p hp => (Set.mem_singleton_iff.mp hp) ▸ hm)
    rfl rfl (fun o => ?_) (ownedHeads_of_agree hag (by rw [hflag]; decide) (by rw [hcf]; decide))
    rfl rfl, hs, hflag, hps⟩
  rw [hps]
  exact ownedIn_update (fun _ => PageState.noConfusion)
    (fun _ => by rw [hcached]; exact PageState.noConfusion) o

/-- `alloc_cached_order0_at` of a page the cache does not hold refuses it and changes
nothing. -/
theorem allocCachedOrder0At_of_not_cached
    (hs : a.totalPages ≤ h ∨ a.pageFlags h ≠ flagCachedOrder0) :
    allocCachedOrder0At a h owner = .ok (0, a) := by
  rw [allocCachedOrder0At, if_pos]
  rcases hs with ht | hf
  · simp [ht]
  · simp [hf]

/-- **`alloc_cached_order0_at` on a well-formed allocator with exact counters**: a cached
page always passes the checks and goes to `owner`, allocated as `alloc` of one page leaves
a page, with the layout and the counters exact. -/
theorem allocCachedOrder0At_spec (hl : WellFormed a) (hc : Counted a)
    (hown : physicalPageOwnerIsValid owner = true) (ht : h < a.totalPages)
    (hcf : a.pageFlags h = flagCachedOrder0) :
    ∃ a', allocCachedOrder0At a h owner = .ok (pageToPtr a.base h, a') ∧ WellFormed a' ∧
      Counted a' ∧ AllocBlock a' h 0 owner ∧
      pageState a' = Function.update (pageState a) h (.allocated owner) ∧ a'.base = a.base := by
  obtain ⟨hl₁, hs₁, -, hps₁⟩ := hl.uncache ht hcf
  have hhead : pageState (clearAllocatedBlock a h (2 ^ 0)) h = .free := by
    rw [hps₁, Function.update_self]
  -- the stores of `alloc_cached_order0_at` are `alloc`'s marking of the set-aside page
  obtain ⟨a₂, hacc, hl₂, hb₂, hps₂, hbase₂, -, -, hc₂⟩ := hl₁.allocate hs₁ hhead hown
  rw [markAllocated_zero, storePage_clearAllocatedBlock, pow_zero] at hacc
  simp only [counts, Prod.mk.injEq] at hc₂
  have hcached : pageState a h = .cached := pageState_eq_cached_iff.mpr hcf
  have hf := hl.cached_pageFree hs₁.above_meta ht (Set.notMem_empty h) hcf
  obtain ⟨hfz, hcz⟩ := hc.ne_zero_of_cached ht hcached
  have hps : pageState a₂ = Function.update (pageState a) h (.allocated owner) := by
    rw [hps₂, hps₁, allocPages_zero, Function.update_idem]
  refine ⟨{ a₂ with freeCount := a₂.freeCount - 1, cachedOrder0Count := a₂.cachedOrder0Count - 1 },
    ?_, hl₂.setCounts _ _, hc.of_update ht hc₂.1 hl.total_lt hps ?_ ?_,
    hb₂.congr (Agree.setCounts _ _), hps, hbase₂⟩
  · simp only [allocCachedOrder0At, hcf, bne_self_eq_false, Bool.or_false,
      decide_eq_false (Nat.not_le.mpr ht), hf.kind, hf.owner, hf.refcount,
      beq_eq_false_iff_ne.mpr hfz, beq_eq_false_iff_ne.mpr hcz, Bool.false_eq_true, if_false,
      hacc, ok_bind, pure_eq_ok]
    rw [show a₂.base = a.base from hbase₂]
  · rw [hcached, if_pos (Or.inr rfl), if_neg (by simp),
      show a₂.freeCount = a.freeCount from hc₂.2.1]
    simp
  · rw [hcached, if_pos rfl, if_neg PageState.noConfusion,
      show a₂.cachedOrder0Count = a.cachedOrder0Count from hc₂.2.2]
    simp

/-- `release_cached_order0_at` of a page the cache does not hold refuses it and changes
nothing. -/
theorem releaseCachedOrder0At_of_not_cached
    (hs : a.totalPages ≤ h ∨ a.pageFlags h ≠ flagCachedOrder0) :
    releaseCachedOrder0At a h = .ok (0, a) := by
  rw [releaseCachedOrder0At, if_pos]
  rcases hs with ht | hf
  · simp [ht]
  · simp [hf]

/-- **`release_cached_order0_at` on a well-formed allocator with exact counters**: a cached
page always passes the checks and goes back to the free lists, with the layout and the
counters exact. -/
theorem releaseCachedOrder0At_spec (hl : WellFormed a) (hc : Counted a) (ht : h < a.totalPages)
    (hcf : a.pageFlags h = flagCachedOrder0) :
    ∃ a', releaseCachedOrder0At a h = .ok (2 ^ 0 * pageSize, a') ∧ WellFormed a' ∧
      Counted a' ∧ pageState a' = Function.update (pageState a) h .free ∧ a'.base = a.base := by
  obtain ⟨hl₁, hs₁, hflag, hps₁⟩ := hl.uncache ht hcf
  have hcached : pageState a h = .cached := pageState_eq_cached_iff.mpr hcf
  have hf := hl.cached_pageFree hs₁.above_meta ht (Set.notMem_empty h) hcf
  obtain ⟨hfz, hcz⟩ := hc.ne_zero_of_cached ht hcached
  set a₁ : PageAllocator := { a with
    cachedOrder0Count := a.cachedOrder0Count - 1
    freeCount := a.freeCount - 1 }
  have hclear : clearAllocatedBlock (a₁.setFlag h flagAllocHead) h (2 ^ 0) =
      { clearAllocatedBlock a h (2 ^ 0) with
        freeCount := a.freeCount - 1, cachedOrder0Count := a.cachedOrder0Count - 1 } := by
    rw [clearAllocatedBlock_setFlag]
    rfl
  have hrel : (if false then releaseBlockOwner (a₁.setFlag h flagAllocHead) h (2 ^ 0)
      else pure (a₁.setFlag h flagAllocHead)) = .ok (a₁.setFlag h flagAllocHead) := rfl
  obtain ⟨a', hres, hwf, hps, hbase, -, -, htot, hfc, hcc, -⟩ :=
    freeAllocatedBlock_of_cleared (a := a₁.setFlag h flagAllocHead) (Nat.zero_le _)
      (by rw [pow_zero]; exact ht) hl.total_lt hrel
      (by rw [hclear]; exact hl₁.setCounts _ _)
      (by rw [hclear]; exact hs₁.congr (Agree.setCounts _ _)) (by rw [hclear]; exact hflag)
  have hps' : pageState a' = Function.update (pageState a) h .free := by
    rw [hps, hclear]
    exact hps₁
  refine ⟨a', ?_, hwf, hc.of_update ht htot hl.total_lt hps' ?_ ?_, hps', hbase⟩
  · simp only [releaseCachedOrder0At, hcf, bne_self_eq_false, Bool.or_false,
      decide_eq_false (Nat.not_le.mpr ht), hf.kind, hf.refcount, beq_eq_false_iff_ne.mpr hfz,
      beq_eq_false_iff_ne.mpr hcz, Bool.false_eq_true, if_false]
    exact hres
  · -- the page stays counted free: `free_count` loses it and `free_allocated_block` adds it
    rw [hfc, hcached, if_pos (Or.inr rfl), if_pos (Or.inl rfl)]
    show a.freeCount - 1 + (2 ^ 0).toUInt32 + 1 = a.freeCount + 1
    simp
  · rw [hcc, hcached, if_pos rfl, if_neg PageState.noConfusion]
    show a.cachedOrder0Count - 1 + 1 = a.cachedOrder0Count + 0
    simp

end Uncache

/-! ## `free_order0_at` -/

section FreeOrder0

variable {h : Nat} {o : UInt8}

/-- What `free_order0_at` does at an allocated order-0 page: the slab and kmalloc checks,
then `free_allocated_block`. -/
theorem freeOrder0At_of_allocBlock (hb : AllocBlock a h 0 o) :
    freeOrder0At a h =
      if pageHasLiveSlabKind a h then .ok (0, a)
      else if pageHasLiveMediumAllocMagic a h then
        .error "page_free called on live kmalloc medium alloc"
      else if pageHasLiveLargeAllocMagic a h then
        .error "page_free called on live kmalloc large alloc"
      else freeAllocatedBlock a h 0 true := by
  have ht : h < a.totalPages := by have := hb.fits; omega
  simp only [freeOrder0At, Nat.not_le.mpr ht, if_false, hb.head, ← flagAllocHead_eq,
    bne_self_eq_false, Bool.false_eq_true]

/-- **`free_order0_at` asks nothing of the refcount.** On an allocated order-0 page with no
slab kind and no live kmalloc header, it frees the page even while a reference besides the
allocation's holds it, where `free` of the page's address refuses it. -/
theorem freeOrder0At_frees_held_page (hl : WellFormed a) (hb : AllocBlock a h 0 o)
    (hslab : pageHasLiveSlabKind a h = false) (hmed : pageHasLiveMediumAllocMagic a h = false)
    (hlarge : pageHasLiveLargeAllocMagic a h = false) (hr : a.pageRefcounts h ≠ 1) :
    free a (pageToPtr a.base h) = .ok (0, a) ∧
      ∃ a', freeOrder0At a h = .ok (2 ^ 0 * pageSize, a') ∧ Freed a a' h 0 := by
  refine ⟨free_of_allocBlock_held hl hb hmed hlarge (Or.inr ⟨h, head_mem_block h 0, hr⟩), ?_⟩
  rw [freeOrder0At_of_allocBlock hb, hslab, hmed, hlarge]
  simpa only [Bool.false_eq_true, if_false] using freeAllocatedBlock_spec hl hb

/-- **`free_order0_at` on a well-formed allocator with exact counters**: it refuses,
changing nothing, anything but a live order-0 page of no slab kind, panics on a live kmalloc
header, and otherwise frees the page, with the layout and the counters exact. -/
theorem freeOrder0At_spec (hl : WellFormed a) (hc : Counted a) (h : Nat) :
    freeOrder0At a h = .ok (0, a) ∨
      freeOrder0At a h = .error "page_free called on live kmalloc medium alloc" ∨
      freeOrder0At a h = .error "page_free called on live kmalloc large alloc" ∨
      ∃ o a', AllocBlock a h 0 o ∧ freeOrder0At a h = .ok (2 ^ 0 * pageSize, a') ∧
        Freed a a' h 0 ∧ Counted a' := by
  by_cases hlive : h < a.totalPages ∧ a.pageFlags h = flagAllocHead
  · obtain ⟨o, hb⟩ := hl.allocBlock_of_flag hlive.1 (Set.notMem_empty h) hlive.2
    rw [freeOrder0At_of_allocBlock hb]
    by_cases hs : pageHasLiveSlabKind a h = true
    · exact .inl (if_pos hs)
    rw [if_neg hs]
    by_cases hm : pageHasLiveMediumAllocMagic a h = true
    · exact .inr (.inl (if_pos hm))
    rw [if_neg hm]
    by_cases hg : pageHasLiveLargeAllocMagic a h = true
    · exact .inr (.inr (.inl (if_pos hg)))
    rw [if_neg hg]
    obtain ⟨a', hres, hF⟩ := freeAllocatedBlock_spec hl hb
    exact .inr (.inr (.inr ⟨o, a', hb, hres, hF, hc.freed hb.ownedSpan hF⟩))
  · refine .inl ?_
    rw [freeOrder0At]
    by_cases ht : a.totalPages ≤ h
    · rw [if_pos ht]
    · rw [if_neg ht, if_pos]
      rw [bne_iff_ne]
      exact fun hf => hlive ⟨Nat.not_le.mp ht, hf⟩

end FreeOrder0

end Wos.PageAlloc
