import WosKernel.PageAllocInit

/-! # Runs of page allocations and frees

The clients of a zone call `alloc` and `free` in any order, with any sizes and any
pointers.  A run is such a sequence of calls (`runCalls`).  On a zone that only these
calls touch, every page keeps a kind that kmalloc's and the slab allocator's checks in
`free` pass over, and every allocated page one reference (`Clean`); each call keeps that
and the layout (`Call.apply_clean`), so a run from `init` never panics and leaves a well-formed
allocator after every call (`runCalls_clean`).

In the page-set view a call allocates an aligned free block to its owner or frees a live
block, and freeing what `alloc` returned gives back the page set from before the
allocation (`free_after_alloc`).
-/

namespace Wos.PageAlloc

open Buddy

/-- A call a client of the zone makes. -/
inductive Call
  | alloc (sizeBytes : Nat) (owner : UInt8)
  | free (ptr : Nat)
deriving DecidableEq, Repr

/-- The allocator's answer to one call, and its state after. -/
def Call.apply : Call → PageAllocator → Except String (Nat × PageAllocator)
  | .alloc sizeBytes owner, a => PageAlloc.alloc a sizeBytes owner
  | .free ptr, a => PageAlloc.free a ptr

/-- A call names an owner `physical_page_owner_is_valid` accepts, if it names one. -/
def Call.ownerValid : Call → Bool
  | .alloc _ owner => physicalPageOwnerIsValid owner
  | .free _ => true

/-- The calls one after the other: their answers, and the state after the last. -/
def runCalls : List Call → PageAllocator → Except String (List Nat × PageAllocator)
  | [], a => .ok ([], a)
  | c :: cs, a => do
    let (r, a) ← c.apply a
    let (rs, a) ← runCalls cs a
    pure (r :: rs, a)

/-! ## The invariant of a zone that only `alloc` and `free` touch -/

/-- A well-formed allocator with exact counters, none of whose pages has a kind that
kmalloc or the slab allocator gives it, and whose allocated pages have one reference
each. -/
structure Clean (a : PageAllocator) : Prop where
  wf : WellFormed a
  counted : Counted a
  kinds : ∀ p, a.pageKinds p = .free ∨ a.pageKinds p = .reserved ∨ a.pageKinds p = .normal
  refcounts : ∀ p o, pageState a p = .allocated o → a.pageRefcounts p = 1

variable {a a' : PageAllocator}

theorem pageHasLiveTrackedAllocMagic_eq_false {p : Nat} {tracked : PageKind} {magic : UInt64}
    (hk : a.pageKinds p ≠ tracked) (hu : a.pageKinds p ≠ .unknown) :
    pageHasLiveTrackedAllocMagic a p tracked magic = false := by
  rw [pageHasLiveTrackedAllocMagic, if_pos]
  simp only [Bool.and_eq_true, bne_iff_ne, ne_eq]
  exact ⟨hk, hu⟩

theorem Clean.kind_ne (hc : Clean a) (p : Nat) {k : PageKind} (hf : k ≠ .free)
    (hr : k ≠ .reserved) (hn : k ≠ .normal) : a.pageKinds p ≠ k := by
  rcases hc.kinds p with hp | hp | hp <;> rw [hp]
  · exact hf.symm
  · exact hr.symm
  · exact hn.symm

/-- The live kmalloc checks of `free` pass over every page of a clean zone. -/
theorem Clean.no_magic (hc : Clean a) (p : Nat) :
    pageHasLiveMediumAllocMagic a p = false ∧ pageHasLiveLargeAllocMagic a p = false :=
  ⟨pageHasLiveTrackedAllocMagic_eq_false (hc.kind_ne p (by decide) (by decide) (by decide))
      (hc.kind_ne p (by decide) (by decide) (by decide)),
    pageHasLiveTrackedAllocMagic_eq_false (hc.kind_ne p (by decide) (by decide) (by decide))
      (hc.kind_ne p (by decide) (by decide) (by decide))⟩

theorem Clean.allocated {h k : Nat} {owner : UInt8} (hc : Clean a)
    (hA : Allocated a a' h k owner) : Clean a' := by
  refine ⟨hA.wf, hc.counted.allocated hA, fun p => ?_, fun p o hp => ?_⟩
  · rw [hA.kinds_eq, fillRange_apply]
    split_ifs
    · exact Or.inr (Or.inr rfl)
    · exact hc.kinds p
  · rw [hA.refcounts_eq, fillRange_apply]
    split_ifs with hin
    · rfl
    · rw [hA.pageState_eq, allocPages_of_not_mem fun h' => hin (mem_block.mp h')] at hp
      exact hc.refcounts p o hp

theorem Clean.freed {h k : Nat} {o : UInt8} (hc : Clean a) (hb : AllocBlock a h k o)
    (hF : Freed a a' h k) : Clean a' := by
  refine ⟨hF.wf, hc.counted.freed hb.ownedSpan hF, fun p => ?_, fun p o hp => ?_⟩
  · rw [hF.kinds_eq, fillRange_apply]
    split_ifs
    · exact Or.inl rfl
    · exact hc.kinds p
  · rw [hF.pageState_eq] at hp
    have hin : p ∉ block h k := fun h' => by
      rw [freePages_of_mem h'] at hp
      exact PageState.noConfusion hp
    rw [freePages_of_not_mem hin] at hp
    rw [hF.refcounts_eq, fillRange_apply, if_neg fun h' => hin (mem_block.mpr h')]
    exact hc.refcounts p o hp

/-- A zone fresh from `init` is clean. -/
theorem init_clean {zoneBase totalPages metadataPages : Nat} (word16 : Nat → UInt64)
    (hmeta : 0 < metadataPages) (hlt : metadataPages < totalPages)
    (hbase : zoneBase % pageSize = 0) (hwrap : totalPages + 2 ^ maxOrder ≤ 2 ^ 32) :
    ∃ a, init zoneBase totalPages metadataPages word16 = .ok a ∧ Clean a := by
  obtain ⟨a, hinit, hwf, hcount, -, -, -, hk, -, hview⟩ :=
    init_wellFormed word16 hmeta hlt hbase hwrap
  refine ⟨a, hinit, hwf, hcount, fun p => ?_, fun p o hp => ?_⟩
  · rcases hk p with hp | hp
    · exact Or.inl hp
    · exact Or.inr (Or.inl hp)
  · rw [hview p] at hp
    split_ifs at hp

/-! ## One call, and a run -/

section Calls

variable {owner : UInt8}

/-- **`alloc` on a clean zone** does not panic for a valid owner, and the zone stays
clean. -/
theorem alloc_clean (hc : Clean a) (hown : physicalPageOwnerIsValid owner = true) (s : Nat) :
    ∃ r a', alloc a s owner = .ok (r, a') ∧ Clean a' := by
  cases hord : sizeToOrder s with
  | none => exact ⟨0, a, by rw [alloc, hord], hc⟩
  | some order =>
    rcases alloc_spec hc.wf hown hord with ⟨-, h0⟩ | ⟨-, h, a', hres, hA⟩
    · exact ⟨0, a, h0, hc⟩
    · exact ⟨_, a', hres, hc.allocated hA⟩

/-- **`free` on a clean zone** does not panic: it frees a live block, whose pages pass the
kmalloc, slab and refcount checks, or refuses the pointer; the zone stays clean. -/
theorem free_clean (hc : Clean a) (ptr : Nat) : ∃ r a', free a ptr = .ok (r, a') ∧ Clean a' := by
  by_cases hlive : ∃ h k o, ptr = pageToPtr a.base h ∧ AllocBlock a h k o
  · obtain ⟨h, k, o, rfl, hb⟩ := hlive
    obtain ⟨a', hres, hF⟩ := free_of_allocBlock hc.wf hb (hc.no_magic h).1 (hc.no_magic h).2
      (fun p _ => hc.kind_ne p (by decide) (by decide) (by decide))
      (fun p hp => hc.refcounts p o (hb.pageState_eq hp))
    exact ⟨_, a', hres, hc.freed hb hF⟩
  · exact ⟨0, a, free_of_not_live hc.wf fun h k o hp hb => hlive ⟨h, k, o, hp, hb⟩, hc⟩

theorem Call.apply_clean (hc : Clean a) {c : Call} (hv : c.ownerValid = true) :
    ∃ r a', c.apply a = .ok (r, a') ∧ Clean a' := by
  cases c with
  | alloc s o => exact alloc_clean hc hv s
  | free ptr => exact free_clean hc ptr

/-- **A run of calls with valid owners on a clean zone** never panics and leaves the zone
clean. -/
theorem runCalls_clean : ∀ (cs : List Call) (a : PageAllocator),
    (∀ c ∈ cs, c.ownerValid = true) → Clean a → ∃ rs a', runCalls cs a = .ok (rs, a') ∧ Clean a'
  | [], a, _, hc => ⟨[], a, rfl, hc⟩
  | c :: cs, a, hv, hc => by
    obtain ⟨r, a₁, h₁, hc₁⟩ := Call.apply_clean hc (hv c (List.mem_cons_self ..))
    obtain ⟨rs, a', h', hc'⟩ :=
      runCalls_clean cs a₁ (fun c' hc'' => hv c' (List.mem_cons_of_mem _ hc'')) hc₁
    exact ⟨r :: rs, a', by simp only [runCalls, h₁, ok_bind, h', pure_eq_ok], hc'⟩

/-- **Freeing what `alloc` returned** returns the block's bytes and gives back the page
set from before the allocation. -/
theorem free_after_alloc {s order ptr : Nat} (hc : Clean a)
    (hown : physicalPageOwnerIsValid owner = true) (hord : sizeToOrder s = some order)
    (hres : alloc a s owner = .ok (ptr, a')) (hptr : ptr ≠ 0) :
    ∃ a'', free a' ptr = .ok (2 ^ order * pageSize, a'') ∧ pageState a'' = pageState a ∧
      Clean a'' := by
  rcases alloc_spec hc.wf hown hord with ⟨-, h0⟩ | ⟨-, h, a₁, hres₁, hA⟩
  · rw [h0] at hres
    simp only [Except.ok.injEq, Prod.mk.injEq] at hres
    exact absurd hres.1.symm hptr
  · rw [hres₁] at hres
    simp only [Except.ok.injEq, Prod.mk.injEq] at hres
    obtain ⟨rfl, rfl⟩ := hres
    have hc₁ := hc.allocated hA
    obtain ⟨a'', hfree, hF⟩ := free_of_allocBlock hA.wf hA.allocBlock (hc₁.no_magic h).1
      (hc₁.no_magic h).2 (fun p _ => hc₁.kind_ne p (by decide) (by decide) (by decide))
      (fun p hp => hc₁.refcounts p owner (hA.allocBlock.pageState_eq hp))
    refine ⟨a'', ?_, ?_, hc₁.freed hA.allocBlock hF⟩
    · rw [← hA.base_eq]
      exact hfree
    · rw [hF.pageState_eq, hA.pageState_eq, freePages_allocPages hA.was_free]

/-- On a zone of 16 pages fresh from `init`, `alloc` of one page for owner `1` hands out a
live block of order 0 at a non-null address, from a clean allocator to a clean one. -/
theorem alloc_one_page_at_init :
    ∃ a h a', init 0 16 1 (fun _ => 0) = .ok a ∧ Clean a ∧
      alloc a 4096 1 = .ok (pageToPtr a.base h, a') ∧ pageToPtr a.base h ≠ 0 ∧
      Allocated a a' h 0 1 ∧ Clean a' := by
  obtain ⟨a, hinit, hwf, -, -, htot, hmeta, -, -, hview⟩ := init_wellFormed (fun _ => 0)
    (show 0 < 1 by decide) (show 1 < 16 by decide) (show 0 % pageSize = 0 by decide)
    (by norm_num [maxOrder])
  obtain ⟨a₀, hinit₀, hc⟩ := init_clean (fun _ => 0) (show 0 < 1 by decide)
    (show 1 < 16 by decide) (show 0 % pageSize = 0 by decide) (by norm_num [maxOrder])
  obtain rfl : a₀ = a := Except.ok.inj (hinit₀.symm.trans hinit)
  have hfree : pageState a₀ 1 = .free := by rw [hview]; rfl
  obtain ⟨_, k, -, hk, hmem⟩ := hwf.listed_of_free (by omega) (by omega) hfree
  rcases alloc_spec hwf (show physicalPageOwnerIsValid 1 = true by decide)
      (show sizeToOrder 4096 = some 0 by decide) with
    ⟨hall, -⟩ | ⟨-, h, a', hres, hA⟩
  · exact absurd (hall k (Nat.zero_le k) hk) (List.ne_nil_of_mem hmem)
  · exact ⟨a₀, h, a', hinit, hc, hres,
      pageToPtr_ne_zero (Nat.lt_of_lt_of_le hwf.meta_pos hA.inZone.above_meta), hA,
      hc.allocated hA⟩

/-- `free_after_alloc` on a zone of 16 pages fresh from `init`, for one page. -/
theorem free_after_alloc_at_init :
    ∃ a, init 0 16 1 (fun _ => 0) = .ok a ∧ Clean a ∧ physicalPageOwnerIsValid 1 = true ∧
      sizeToOrder 4096 = some 0 ∧ ∃ ptr a', alloc a 4096 1 = .ok (ptr, a') ∧ ptr ≠ 0 ∧
        ∃ a'', free a' ptr = .ok (2 ^ 0 * pageSize, a'') ∧ pageState a'' = pageState a ∧
          Clean a'' := by
  obtain ⟨a, h, a', hinit, hc, hres, hne, -, -⟩ := alloc_one_page_at_init
  have hown : physicalPageOwnerIsValid 1 = true := by decide
  have hord : sizeToOrder 4096 = some 0 := by decide
  exact ⟨a, hinit, hc, hown, hord, _, a', hres, hne, free_after_alloc hc hown hord hres hne⟩

end Calls

/-! ## Runs from `init` -/

section Init

variable {zoneBase totalPages metadataPages : Nat} (word16 : Nat → UInt64)

/-- **Every run of page allocations and frees from `init`**, with valid owners, never
panics and leaves a well-formed allocator. -/
theorem init_runCalls_wellFormed (hmeta : 0 < metadataPages) (hlt : metadataPages < totalPages)
    (hbase : zoneBase % pageSize = 0) (hwrap : totalPages + 2 ^ maxOrder ≤ 2 ^ 32)
    (cs : List Call) (hv : ∀ c ∈ cs, c.ownerValid = true) :
    ∃ a, init zoneBase totalPages metadataPages word16 = .ok a ∧
      ∃ rs a', runCalls cs a = .ok (rs, a') ∧ WellFormed a' := by
  obtain ⟨a, hinit, hc⟩ := init_clean word16 hmeta hlt hbase hwrap
  obtain ⟨rs, a', hrun, hc'⟩ := runCalls_clean cs a hv hc
  exact ⟨a, hinit, rs, a', hrun, hc'.wf⟩

/-- `init_runCalls_wellFormed` on a zone of 16 pages, for an allocation of two pages and
a free of page 8. -/
theorem init_runCalls_wellFormed_two_calls :
    0 < 1 ∧ 1 < 16 ∧ 0 % pageSize = 0 ∧ 16 + 2 ^ maxOrder ≤ 2 ^ 32 ∧
      (∀ c ∈ [Call.alloc 8192 1, Call.free (pageToPtr 0 8)], c.ownerValid = true) ∧
      ∃ a, init 0 16 1 (fun _ => 0) = .ok a ∧
        ∃ rs a', runCalls [Call.alloc 8192 1, Call.free (pageToPtr 0 8)] a = .ok (rs, a') ∧
          WellFormed a' :=
  ⟨by decide, by decide, by decide, by norm_num [maxOrder], by decide,
    init_runCalls_wellFormed (fun _ => 0) (by decide) (by decide) (by decide)
      (by norm_num [maxOrder]) _ (by decide)⟩

end Init

end Wos.PageAlloc
