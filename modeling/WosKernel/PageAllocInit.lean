import WosKernel.PageAllocFree

/-! # `init` carves a well-formed zone

`PageAllocator::init` reserves the metadata pages, flags every other page as a free
interior and walks the zone from the first usable page, stamping at each step the head of
the largest aligned block that fits and pushing it on its list.  Between two steps the
part of the zone not walked yet is the layout's hole (`initLoop_spec`); at the end of the
zone there is none left, so the allocator `init` leaves is well formed, every usable page
free (`init_wellFormed`).

The walk adds page indices as `uint32_t`; the zone is taken small enough that no sum it
forms wraps (`totalPages + 2 ^ MAX_ORDER ≤ 2 ^ 32`).
-/

namespace Wos.PageAlloc

open Buddy

variable {a : PageAllocator}

/-- A layout whose hole lies past the end of the zone has no hole. -/
theorem Layout.of_hole_above {hole : Set Nat} (hl : Layout a hole)
    (hh : ∀ p ∈ hole, a.totalPages ≤ p) : WellFormed a := by
  have hag : Agree a a (∅ : Set Nat)ᶜ :=
    ⟨rfl, rfl, fun _ _ => rfl, fun _ _ => rfl, fun _ _ => rfl, fun _ _ => rfl⟩
  have hout : ∀ p < a.totalPages, p ∉ hole := fun p hp hm => absurd (hh p hm) (Nat.not_le.mpr hp)
  refine ⟨hl.toZoneShape, fun p hm ht _ => ?_, hl.nodup, fun k hk ptr => ?_, hl.owner_pages,
    hl.owner_objects⟩
  · exact (hl.placed p hm ht (hout p ht)).transfer hag (Set.notMem_empty p) fun _ _ _ _ _ =>
      ⟨Set.disjoint_empty _, Set.disjoint_empty _⟩
  · rw [hl.listed k hk ptr]
    constructor
    · rintro ⟨x, rfl, -, hm, ht, hf⟩
      exact ⟨x, rfl, Set.notMem_empty x, hm, ht, hf⟩
    · rintro ⟨x, rfl, -, hm, ht, hf⟩
      exact ⟨x, rfl, hout x ht, hm, ht, hf⟩

/-! ## The order loop -/

section Order

variable {page total : Nat}

/-- **The order loop of `init`** ends at an order at which `page` is aligned and the block
fits in the zone. -/
theorem initOrderLoop_spec (hpt : page < total) (hwrap : total + 2 ^ maxOrder ≤ 2 ^ 32) :
    ∀ fuel order, 2 ^ order ∣ page → page + 2 ^ order ≤ total → order ≤ maxOrder →
      2 ^ initOrderLoop page total fuel order ∣ page ∧
        page + 2 ^ initOrderLoop page total fuel order ≤ total ∧
        initOrderLoop page total fuel order ≤ maxOrder
  | 0, order, ha, hf, ho => ⟨ha, hf, ho⟩
  | fuel + 1, order, ha, hf, ho => by
    simp only [initOrderLoop]
    split_ifs with hlt hstop
    · exact ⟨ha, hf, ho⟩
    · -- aligned at the next order, and the next block fits without the sum wrapping
      simp only [Bool.or_eq_true, bne_iff_ne, ne_eq, not_or, not_not, blockOverruns,
        decide_eq_true_eq, not_lt] at hstop
      obtain ⟨hal, hfit⟩ := hstop
      have hpow : 2 ^ (order + 1) ≤ 2 ^ maxOrder := Nat.pow_le_pow_right (by decide) hlt
      rw [Nat.and_two_pow_sub_one_eq_mod] at hal
      rw [Nat.mod_eq_of_lt (by omega)] at hfit
      exact initOrderLoop_spec hpt hwrap fuel (order + 1) (Nat.dvd_of_mod_eq_zero hal) hfit hlt
    · exact ⟨ha, hf, ho⟩

end Order

/-! ## The decomposition loop -/

/-- **The decomposition loop of `init`**: from `page` on, every page of the zone is a free
interior set aside; the loop makes them free blocks on their lists and counts them in
`free_count`, and leaves a well-formed allocator whose tables and page-set view are those
it started from. -/
theorem initLoop_spec : ∀ fuel page (a : PageAllocator), a.totalPages ≤ page + fuel →
    a.totalPages + 2 ^ maxOrder ≤ 2 ^ 32 → a.metadataPages ≤ page → Layout a (Set.Ici page) →
    (∀ p, page ≤ p → p < a.totalPages → a.pageFlags p = flagFreeInterior ∧ PageFree a p) →
    a.freeCount.toNat + (a.totalPages - page) < 2 ^ 32 →
    ∃ a', initLoop fuel page a = .ok a' ∧ WellFormed a' ∧ a'.base = a.base ∧
      a'.totalPages = a.totalPages ∧ a'.metadataPages = a.metadataPages ∧
      a'.pageKinds = a.pageKinds ∧ a'.pageRefcounts = a.pageRefcounts ∧
      pageState a' = pageState a ∧
      a'.freeCount.toNat = a.freeCount.toNat + (a.totalPages - page) ∧
      a'.cachedOrder0Count = a.cachedOrder0Count
  | 0, page, a, hfuel, _, _, hl, _, _ =>
    ⟨a, rfl, hl.of_hole_above fun p hp => le_trans (by omega) (Set.mem_Ici.mp hp), rfl, rfl,
      rfl, rfl, rfl, rfl, by omega, rfl⟩
  | fuel + 1, page, a, hfuel, hwrap, hm, hl, hrest, hcount => by
    by_cases hpt : page < a.totalPages
    · -- the block of the largest order that fits at `page` is set aside and linked
      set K := initOrderLoop page a.totalPages maxOrder 0 with hKdef
      obtain ⟨hal, hfit, hK⟩ : 2 ^ K ∣ page ∧ page + 2 ^ K ≤ a.totalPages ∧ K ≤ maxOrder :=
        initOrderLoop_spec hpt hwrap maxOrder 0 (one_dvd page) (by omega) (Nat.zero_le _)
      have hpos := Nat.one_le_two_pow (n := K)
      have hsplit : Set.Ici page = block page K ∪ Set.Ici (page + 2 ^ K) := by
        ext p
        simp only [Set.mem_Ici, Set.mem_union, mem_block]
        omega
      have hd : Disjoint (block page K) (Set.Ici (page + 2 ^ K)) := by
        rw [Set.disjoint_left]
        intro p hp hp'
        rw [mem_block] at hp
        rw [Set.mem_Ici] at hp'
        omega
      have hspan : FreeSpan a page K :=
        ⟨⟨hal, hK, hm, hfit⟩, fun p hp _ => (hrest p (mem_block.mp hp).1 (by
          have := (mem_block.mp hp).2; omega)).1, fun p hp => (hrest p (mem_block.mp hp).1 (by
          have := (mem_block.mp hp).2; omega)).2⟩
      have hl' : Layout a (block page K ∪ Set.Ici (page + 2 ^ K)) := hsplit ▸ hl
      obtain ⟨hins, hl₂, hps₂⟩ := hl'.linkBlock hd hspan (hrest page le_rfl hpt).1
      set a₂ := linkFreeBlockUnchecked (a.setFlag page (freeHeadFlag K)) K (pageToPtr a.base page)
      have hnext : (page + 2 ^ K) % 2 ^ 32 = page + 2 ^ K := by
        have := Nat.one_le_two_pow (n := maxOrder)
        exact Nat.mod_eq_of_lt (by omega)
      set a₃ := { a₂ with freeCount := a₂.freeCount + (2 ^ K).toUInt32 }
      have hrest₂ : ∀ p, page + 2 ^ K ≤ p → p < a₃.totalPages →
          a₃.pageFlags p = flagFreeInterior ∧ PageFree a₃ p := by
        intro p hp hpt'
        have hne : p ≠ page := by omega
        obtain ⟨hf, hfr⟩ := hrest p (by omega) hpt'
        exact ⟨(Function.update_of_ne hne _ _).trans hf, hfr.of_tables rfl rfl rfl⟩
      -- `free_count += BLOCK_SIZE` does not wrap: the pages left fit in a `uint32_t`
      have hcount₃ : a₃.freeCount.toNat = a.freeCount.toNat + 2 ^ K := by
        show (a.freeCount + (2 ^ K).toUInt32).toNat = _
        rw [UInt32.toNat_add, toNat_blockSize hK, Nat.mod_eq_of_lt (by omega)]
      obtain ⟨a', hrun, hwf, hb', ht', hm', hk', hr', hps', hc', hcc'⟩ :=
        initLoop_spec fuel (page + 2 ^ K) a₃ (by show a.totalPages ≤ _; omega) hwrap
          (by show a.metadataPages ≤ _; omega) (hl₂.setCounts _ _) hrest₂
          (by rw [hcount₃]; show _ + (a.totalPages - _) < _; omega)
      refine ⟨a', ?_, hwf, hb', ht', hm', hk', hr', hps'.trans hps₂, ?_, hcc'⟩
      · rw [initLoop, if_pos hpt]
        simp only [← hKdef, hins, ok_bind, hnext]
        exact hrun
      · rw [hc', hcount₃]
        show _ + (a.totalPages - _) = _
        omega
    · refine ⟨a, ?_, hl.of_hole_above fun p hp => le_trans (by omega) (Set.mem_Ici.mp hp), rfl,
        rfl, rfl, rfl, rfl, rfl, by omega, rfl⟩
      rw [initLoop, if_neg hpt]

/-! ## `init` -/

section Init

variable {zoneBase totalPages metadataPages : Nat} (word16 : Nat → UInt64)

/-- **`init` carves a well-formed zone**: on a page-aligned zone whose tables take fewer
pages than it has, it leaves a well-formed allocator of that zone, with exact counters, in
which the tables' pages are reserved and every other page is free, every page of kind
`FREE` or `RESERVED`, and no page referenced. -/
theorem init_wellFormed (hmeta : 0 < metadataPages) (hlt : metadataPages < totalPages)
    (hbase : zoneBase % pageSize = 0) (hwrap : totalPages + 2 ^ maxOrder ≤ 2 ^ 32) :
    ∃ a, init zoneBase totalPages metadataPages word16 = .ok a ∧ WellFormed a ∧ Counted a ∧
      a.base = zoneBase ∧ a.totalPages = totalPages ∧ a.metadataPages = metadataPages ∧
      (∀ p, a.pageKinds p = .free ∨ a.pageKinds p = .reserved) ∧ (∀ p, a.pageRefcounts p = 0) ∧
      ∀ p, pageState a p = if p < metadataPages then .reserved else .free := by
  set a₀ : PageAllocator :=
    { freeList := fun _ => [],
      pageFlags := fun p => if p < metadataPages then flagReserved else flagFreeInterior,
      pageKinds := fun p => if p < metadataPages then .reserved else .free,
      pageOwners := fun _ => ownerInvalid, pageRefcounts := fun _ => 0, pageWord16 := word16,
      base := zoneBase, totalPages, metadataPages, ownerPages := fun _ => 0,
      ownerObjects := fun _ => 0, freeCount := 0, cachedOrder0Count := 0 }
  have hpow := Nat.one_le_two_pow (n := maxOrder)
  have hnone : ∀ p o, pageState a₀ p ≠ .allocated o := by
    intro p o
    by_cases hp : p < metadataPages
    · simp only [pageState, a₀, if_pos hp]
      exact PageState.noConfusion
    · rw [pageState_of_interior (by simp only [a₀, if_neg hp])]
      exact PageState.noConfusion
  have hheads : ∀ p, ¬ a₀.pageFlags p &&& 0xC0 = flagAllocHead := by
    intro p
    by_cases hp : p < metadataPages
    · simp only [a₀, if_pos hp]
      decide
    · simp only [a₀, if_neg hp]
      decide
  have hview : ∀ p, pageState a₀ p = if p < metadataPages then .reserved else .free := by
    intro p
    by_cases hp : p < metadataPages
    · simp only [pageState, a₀, if_pos hp]
      rfl
    · rw [if_neg hp]
      exact pageState_of_interior (by simp only [a₀, if_neg hp])
  have hl₀ : Layout a₀ (Set.Ici metadataPages) := by
    refine ⟨⟨hmeta, hlt.le, show totalPages < 2 ^ 32 by omega, hbase, fun p hp => if_pos hp⟩,
      fun p hm _ hp => absurd (Set.mem_Ici.mpr hm) hp, fun _ _ => List.nodup_nil,
      fun k _ ptr => ?_, fun o _ => ?_, fun o _ => ?_⟩
    · show ptr ∈ ([] : List Nat) ↔ _
      simp only [List.not_mem_nil, false_iff, not_exists, not_and]
      exact fun x _ hx hm => absurd (Set.mem_Ici.mpr hm) hx
    · rw [Eq.comm, Finset.card_eq_zero, Finset.eq_empty_iff_forall_notMem]
      intro p hp
      exact hnone p o (mem_ownedIn.mp hp).2
    · rw [Eq.comm, Finset.card_eq_zero, Finset.eq_empty_iff_forall_notMem]
      intro p hp
      exact hheads p (Finset.mem_filter.mp hp).2.1
  have hrest : ∀ p, metadataPages ≤ p → p < a₀.totalPages →
      a₀.pageFlags p = flagFreeInterior ∧ PageFree a₀ p := by
    intro p hp _
    have hp' : ¬ p < metadataPages := Nat.not_lt.mpr hp
    exact ⟨if_neg hp', if_neg hp', loadPageOwner_ownerInvalid, rfl⟩
  obtain ⟨a, hrun, hwf, hb, ht, hm, hk, hr, hps, hc, hcc⟩ :=
    initLoop_spec totalPages metadataPages a₀ (by show totalPages ≤ _; omega)
      (by show totalPages + _ ≤ _; omega) le_rfl hl₀ hrest
      (by show 0 + (totalPages - metadataPages) < _; omega)
  have hfreeIn : freeIn totalPages (pageState a) = Finset.Ico metadataPages totalPages := by
    ext p
    simp only [freeIn, Finset.mem_filter, Finset.mem_range, Finset.mem_Ico, hps, hview]
    split_ifs with hp
    · simp only [or_self, and_false, false_iff, not_and, not_lt]
      omega
    · simp only [true_or, and_true]
      omega
  have hcachedIn : cachedIn totalPages (pageState a) = ∅ := by
    rw [Finset.eq_empty_iff_forall_notMem]
    intro p hp
    rw [cachedIn, Finset.mem_filter, hps, hview] at hp
    split_ifs at hp <;> exact hp.2.elim
  refine ⟨a, ?_, hwf, ⟨?_, ?_⟩, hb, ht, hm, fun p => ?_, fun p => by rw [hr], fun p => by
    rw [hps]; exact hview p⟩
  · rw [init, if_neg (Nat.not_le.mpr hlt)]
    exact hrun
  · rw [hc, ht, hfreeIn, Nat.card_Ico]
    exact Nat.zero_add _
  · rw [hcc, ht, hcachedIn]
    rfl
  · rw [hk]
    by_cases hp : p < metadataPages
    · exact Or.inr (if_pos hp)
    · exact Or.inl (if_neg hp)

end Init

end Wos.PageAlloc
