import WosKernel.PageAllocRun

/-! # `alloc` and `free` against the page-set model

On a well-formed allocator each call is one operation of the page-set model.  `alloc`
hands out an aligned block of the least order that holds the request, from pages that
were free, as soon as a list from that order up holds a block, and otherwise returns null
and changes nothing (`alloc_refines`).  `free` gives back exactly the pages of the live
block its pointer heads, or refuses the pointer and changes nothing; it panics only on a
block kmalloc still uses (`free_refines`).

Each statement is witnessed on a zone fresh from `init`, `free`'s after an `alloc`.
-/

namespace Wos.PageAlloc

open Buddy

variable {a : PageAllocator} {owner : UInt8}

/-- **`alloc` refines the page-set model.** With a valid owner: a request above `2 ^ 20`
pages returns null; otherwise, for the least order `order` whose block holds the request,
`alloc` returns null and changes nothing when every list from `order` up is empty, and
otherwise returns the non-null address of an aligned block of order `order` whose pages
were free, now allocated to `owner` with nothing else changed, in a well-formed
allocator. -/
theorem alloc_refines (hl : WellFormed a) (hown : physicalPageOwnerIsValid owner = true)
    (s : Nat) :
    (2 ^ maxOrder * pageSize < s → alloc a s owner = .ok (0, a)) ∧
      ∀ order, IsLeast {j | s ≤ 2 ^ j * pageSize} order → order ≤ maxOrder →
        ((∀ j, order ≤ j → j ≤ maxOrder → a.freeList j = []) → alloc a s owner = .ok (0, a)) ∧
        ((∃ j, order ≤ j ∧ j ≤ maxOrder ∧ a.freeList j ≠ []) →
          ∃ h a', alloc a s owner = .ok (pageToPtr a.base h, a') ∧ pageToPtr a.base h ≠ 0 ∧
            Allocated a a' h order owner) := by
  refine ⟨fun hs => by rw [alloc, sizeToOrder_of_lt hs], fun order hleast hmax => ?_⟩
  have hs : s ≤ 2 ^ maxOrder * pageSize :=
    hleast.1.trans (Nat.mul_le_mul_right _ (Nat.pow_le_pow_right (by decide) hmax))
  obtain ⟨K, hK, -, hleastK⟩ := sizeToOrder_of_le hs
  obtain rfl : K = order := hleastK.unique hleast
  rcases alloc_spec hl hown hK with ⟨hall, h0⟩ | ⟨hne, h, a', hres, hA⟩
  · refine ⟨fun _ => h0, fun hne => ?_⟩
    obtain ⟨j, hj, hjm, hj'⟩ := hne
    exact absurd (hall j hj hjm) hj'
  · refine ⟨fun hall => ?_, fun _ => ⟨h, a', hres,
      pageToPtr_ne_zero (Nat.lt_of_lt_of_le hl.meta_pos hA.inZone.above_meta), hA⟩⟩
    obtain ⟨j, hj, hjm, hj'⟩ := hne
    exact absurd (hall j hj hjm) hj'

/-- `alloc_refines` on a zone of 16 pages fresh from `init`, for two pages. -/
theorem alloc_refines_at_init :
    ∃ a, init 0 16 1 (fun _ => 0) = .ok a ∧ WellFormed a ∧ physicalPageOwnerIsValid 1 = true ∧
      (2 ^ maxOrder * pageSize < 8192 → alloc a 8192 1 = .ok (0, a)) ∧
      ∀ order, IsLeast {j | 8192 ≤ 2 ^ j * pageSize} order → order ≤ maxOrder →
        ((∀ j, order ≤ j → j ≤ maxOrder → a.freeList j = []) → alloc a 8192 1 = .ok (0, a)) ∧
        ((∃ j, order ≤ j ∧ j ≤ maxOrder ∧ a.freeList j ≠ []) →
          ∃ h a', alloc a 8192 1 = .ok (pageToPtr a.base h, a') ∧ pageToPtr a.base h ≠ 0 ∧
            Allocated a a' h order 1) := by
  obtain ⟨a, hinit, hwf, -⟩ := init_wellFormed (fun _ => 0) (show 0 < 1 by decide)
    (show 1 < 16 by decide) (show 0 % pageSize = 0 by decide) (by norm_num [maxOrder])
  exact ⟨a, hinit, hwf, by decide, alloc_refines hwf (by decide) 8192⟩

/-- **`free` refines the page-set model.** On a well-formed allocator, `free` of an
address that heads no live block returns 0 and changes nothing.  On the head of a live
block it panics while kmalloc's medium or large header is live there; otherwise it frees
exactly the block's pages and returns their bytes when no page is a slab page or has a
reference besides the allocation's, merging them into a free block that merges no further
(`Freed`), and else returns 0 and changes nothing. -/
theorem free_refines (hl : WellFormed a) (ptr : Nat) :
    ((∀ h k o, ptr = pageToPtr a.base h → ¬ AllocBlock a h k o) → free a ptr = .ok (0, a)) ∧
      ∀ h k o, ptr = pageToPtr a.base h → AllocBlock a h k o →
        (pageHasLiveMediumAllocMagic a h = true →
          free a ptr = .error "page_free called on live kmalloc medium alloc") ∧
        (pageHasLiveMediumAllocMagic a h = false → pageHasLiveLargeAllocMagic a h = true →
          free a ptr = .error "page_free called on live kmalloc large alloc") ∧
        (pageHasLiveMediumAllocMagic a h = false → pageHasLiveLargeAllocMagic a h = false →
          ((∀ p ∈ block h k, a.pageKinds p ≠ .slab ∧ a.pageRefcounts p = 1) →
            ∃ a', free a ptr = .ok (2 ^ k * pageSize, a') ∧ Freed a a' h k) ∧
          ((∃ p ∈ block h k, a.pageKinds p = .slab ∨ a.pageRefcounts p ≠ 1) →
            free a ptr = .ok (0, a))) := by
  refine ⟨free_of_not_live hl, ?_⟩
  rintro h k o rfl hb
  refine ⟨fun hmed => by rw [free_of_head hl hb, if_pos hmed], fun hmed hlarge => ?_,
    fun hmed hlarge => ⟨fun hfree => ?_, fun hheld => ?_⟩⟩
  · rw [free_of_head hl hb, hmed, if_neg Bool.false_ne_true, if_pos hlarge]
  · exact free_of_allocBlock hl hb hmed hlarge (fun p hp => (hfree p hp).1)
      fun p hp => (hfree p hp).2
  · -- a slab page or a held page refuses the whole block
    obtain ⟨p, hp, hs | hr⟩ := hheld
    · exact free_of_allocBlock_held hl hb hmed hlarge (Or.inl ⟨p, hp, hs⟩)
    · exact free_of_allocBlock_held hl hb hmed hlarge (Or.inr ⟨p, hp, hr⟩)

/-- `free_refines` after `alloc` of one page on a zone of 16 pages fresh from `init`: the
address `alloc` returned heads a live block with no kmalloc header, slab page or extra
reference, so `free` frees it and merges it back. -/
theorem free_refines_after_alloc :
    ∃ a h a', init 0 16 1 (fun _ => 0) = .ok a ∧ alloc a 4096 1 = .ok (pageToPtr a.base h, a') ∧
      WellFormed a' ∧ AllocBlock a' h 0 1 ∧ pageHasLiveMediumAllocMagic a' h = false ∧
      pageHasLiveLargeAllocMagic a' h = false ∧
      (∀ p ∈ block h 0, a'.pageKinds p ≠ .slab ∧ a'.pageRefcounts p = 1) ∧
      ∃ a'', free a' (pageToPtr a'.base h) = .ok (2 ^ 0 * pageSize, a'') ∧ Freed a' a'' h 0 := by
  obtain ⟨a, h, a', hinit, -, hres, -, hA, hc⟩ := alloc_one_page_at_init
  have hkept : ∀ p ∈ block h 0, a'.pageKinds p ≠ .slab ∧ a'.pageRefcounts p = 1 := fun p hp =>
    ⟨hc.kind_ne p (by decide) (by decide) (by decide),
      hc.refcounts p 1 (hA.allocBlock.pageState_eq hp)⟩
  exact ⟨a, h, a', hinit, hres, hA.wf, hA.allocBlock, (hc.no_magic h).1, (hc.no_magic h).2,
    hkept, (((free_refines hA.wf (pageToPtr a'.base h)).2 h 0 1 rfl hA.allocBlock).2.2
      (hc.no_magic h).1 (hc.no_magic h).2).1 hkept⟩

end Wos.PageAlloc
