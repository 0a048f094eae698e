import WosKernel.PageAllocLayout

/-! # `alloc` and `free` keep the layout and refine the page-set model

Each loop of `alloc` and `free` is one step lemma between layouts with holes:

* `Layout.pop`: unlinking the head of `free_list[K]` sets its block aside;
* `Layout.split`: one round of the split loop gives the upper half of the set-aside
  block to `free_list[k]` and keeps the lower half aside;
* `Layout.allocate`: the marking loops and `account_owner_alloc` turn the set-aside
  block into an allocated block of the owner;
* `Layout.clearSpan`: `free_allocated_block`'s owner release and clearing loop set an
  allocated block aside;
* `Layout.merge`: one round of the coalescing loop merges the set-aside block with its
  free buddy;
* `Layout.insertHead`: the final head flag and `insert_free_block` make the set-aside
  block a free block on its list.

None of them changes what a client sees outside the block that is allocated or freed,
so the page-set view of the allocator after `alloc` (after `free`) is the page-set
model's allocation (free) applied to the view before.
-/

namespace Wos.PageAlloc

open Buddy

variable {a : PageAllocator}

/-! ## The order of a request -/

section Order

/-- The page count of `size_to_order`, `⌈sizeBytes / PAGE_SIZE⌉`, is at most `n` exactly
when `n` pages hold the size. -/
theorem pages_le_iff (s n : Nat) :
    s / pageSize + (if s % pageSize != 0 then 1 else 0) ≤ n ↔ s ≤ n * pageSize := by
  simp only [pageSize, bne_iff_ne, ne_eq]
  split_ifs <;> omega

/-- For `0 < m < 2 ^ 64`, `64 - clzll m` is the bit length of `m`. -/
theorem clzll_bounds {m : Nat} (h0 : 0 < m) (h64 : m < 2 ^ 64) :
    2 ^ (64 - clzll (UInt64.ofNat m) - 1) ≤ m ∧ m < 2 ^ (64 - clzll (UInt64.ofNat m)) := by
  have htn : (UInt64.ofNat m).toBitVec.toNat = m := by
    rw [UInt64.toNat_toBitVec, UInt64.toNat_ofNat', Nat.mod_eq_of_lt h64]
  have hx : (UInt64.ofNat m).toBitVec ≠ 0#64 := by
    intro h
    rw [h, BitVec.toNat_zero] at htn
    omega
  have hlo := BitVec.two_pow_sub_clz_le_toNat_of_ne_zero (by norm_num) hx
  have hhi := BitVec.toNat_lt_two_pow_sub_clz (x := (UInt64.ofNat m).toBitVec)
  rw [htn, Nat.sub_right_comm] at hlo
  rw [htn] at hhi
  exact ⟨hlo, hhi⟩

theorem sizeToOrder_of_le {s : Nat} (hs : s ≤ 2 ^ maxOrder * pageSize) :
    ∃ k, sizeToOrder s = some k ∧ k ≤ maxOrder ∧ IsLeast {j | s ≤ 2 ^ j * pageSize} k := by
  have hle (n : Nat) := pages_le_iff s n
  simp only [sizeToOrder]
  generalize s / pageSize + (if s % pageSize != 0 then 1 else 0) = pages at hle ⊢
  have hmax : pages ≤ 2 ^ maxOrder := (hle _).mpr hs
  by_cases h1 : pages ≤ 1
  · refine ⟨0, if_pos h1, Nat.zero_le _, ?_, fun j _ => Nat.zero_le j⟩
    show s ≤ 2 ^ 0 * pageSize
    rw [pow_zero]
    exact (hle 1).mp h1
  · rw [if_neg h1, if_neg (Nat.not_lt.mpr hmax)]
    have h64 : 2 ^ maxOrder < 2 ^ 64 := Nat.pow_lt_pow_right (by norm_num) (by decide)
    obtain ⟨hlo, hhi⟩ := clzll_bounds (m := pages - 1) (by omega) (by omega)
    set K := 64 - clzll (UInt64.ofNat (pages - 1))
    have hK : K ≤ maxOrder := by
      have : 2 ^ (K - 1) < 2 ^ maxOrder := by omega
      have := (Nat.pow_lt_pow_iff_right (by norm_num)).mp this
      omega
    refine ⟨K, rfl, hK, (hle _).mp (by omega), fun j hj => ?_⟩
    by_contra hlt
    have : 2 ^ j ≤ 2 ^ (K - 1) := Nat.pow_le_pow_right (by norm_num) (by omega)
    have := (hle (2 ^ j)).mpr hj
    omega

theorem sizeToOrder_of_lt {s : Nat} (hs : 2 ^ maxOrder * pageSize < s) : sizeToOrder s = none := by
  have hle (n : Nat) := pages_le_iff s n
  simp only [sizeToOrder]
  generalize s / pageSize + (if s % pageSize != 0 then 1 else 0) = pages at hle ⊢
  have hmax : 2 ^ maxOrder < pages := Nat.lt_of_not_le fun h => Nat.not_le.mpr hs ((hle _).mp h)
  have h1 : ¬ pages ≤ 1 := by
    have := Nat.one_le_two_pow (n := maxOrder)
    omega
  rw [if_neg h1, if_pos hmax]

theorem sizeToOrder_le {s k : Nat} (h : sizeToOrder s = some k) : k ≤ maxOrder := by
  by_cases hs : s ≤ 2 ^ maxOrder * pageSize
  · obtain ⟨K, hK, hle, -⟩ := sizeToOrder_of_le hs
    rw [hK] at h
    exact Option.some_injective _ h ▸ hle
  · rw [sizeToOrder_of_lt (Nat.lt_of_not_le hs)] at h
    cases h

/-- **`size_to_order` returns the least order whose block holds the size**, and nothing
when that order would exceed `MAX_ORDER`. -/
theorem sizeToOrder_eq_some_iff {s k : Nat} :
    sizeToOrder s = some k ↔ k ≤ maxOrder ∧ IsLeast {j | s ≤ 2 ^ j * pageSize} k := by
  constructor
  · intro h
    by_cases hs : s ≤ 2 ^ maxOrder * pageSize
    · obtain ⟨K, hK, hle, hleast⟩ := sizeToOrder_of_le hs
      obtain rfl : K = k := Option.some_injective _ (hK.symm.trans h)
      exact ⟨hle, hleast⟩
    · rw [sizeToOrder_of_lt (Nat.lt_of_not_le hs)] at h
      cases h
  · rintro ⟨hk, hleast⟩
    have hs : s ≤ 2 ^ maxOrder * pageSize :=
      hleast.1.trans (Nat.mul_le_mul_right _ (Nat.pow_le_pow_right (by norm_num) hk))
    obtain ⟨K, hK, -, hleast'⟩ := sizeToOrder_of_le hs
    rw [hK, hleast'.unique hleast]

end Order

/-! ## Setting a free block aside -/

/-- Unlinking the head of `free_list[K]` sets its free block aside. -/
theorem Layout.pop (hl : Layout a ∅) {K h : Nat} {rest : List Nat} (hK : K ≤ maxOrder)
    (hlist : a.freeList K = pageToPtr a.base h :: rest) (hb : FreeBlock a h K) :
    Layout (a.setFreeList K rest) (block h K) := by
  have hnd := hl.nodup K hK
  rw [hlist] at hnd
  have hnot : pageToPtr a.base h ∉ rest := (List.nodup_cons.mp hnd).1
  have hag : Agree a (a.setFreeList K rest) (∅ : Set Nat)ᶜ :=
    ⟨rfl, rfl, fun _ _ => rfl, fun _ _ => rfl, fun _ _ => rfl, fun _ _ => rfl⟩
  refine ⟨hl.toZoneShape.congr hag rfl (fun p hp => absurd hp (Set.notMem_empty p)), ?_, ?_, ?_,
    hl.owner_pages, hl.owner_objects⟩
  · intro p hm ht hp
    exact (hl.placed p hm ht (Set.notMem_empty p)).transfer hag (Set.notMem_empty p)
      fun _ _ hb' _ hp' => ⟨Set.disjoint_empty _, hb'.disjoint_of_not_mem hb.blk hp' hp⟩
  · intro j hj
    simp only [PageAllocator.setFreeList, Function.update_apply]
    split_ifs with hjK
    · exact (List.nodup_cons.mp hnd).2
    · exact hl.nodup j hj
  · intro j hj ptr
    simp only [PageAllocator.setFreeList, Function.update_apply]
    constructor
    · intro hmem
      have hmem' : ptr ∈ a.freeList j := by
        split_ifs at hmem with hjK
        · subst hjK
          rw [hlist]
          exact List.mem_cons_of_mem _ hmem
        · exact hmem
      obtain ⟨x, rfl, -, hm, ht, hf⟩ := (hl.listed j hj _).mp hmem'
      refine ⟨x, rfl, fun hx => ?_, hm, ht, hf⟩
      have hxh : x = h := by
        by_contra hne
        exact freeHeadFlag_ne_interior (order_lt_32 hj) (hf ▸ hb.interior x hx hne)
      subst hxh
      have hjK := freeHeadFlag_inj (order_lt_32 hj) (order_lt_32 hK) (hf.symm.trans hb.head)
      subst hjK
      rw [if_pos rfl] at hmem
      exact hnot hmem
    · rintro ⟨x, rfl, hx, hm, ht, hf⟩
      have hmem := (hl.listed j hj _).mpr ⟨x, rfl, Set.notMem_empty x, hm, ht, hf⟩
      split_ifs with hjK
      · subst hjK
        rw [hlist] at hmem
        rcases List.mem_cons.mp hmem with he | he
        · exact absurd (pageToPtr_inj he ▸ head_mem_block h j) hx
        · exact he
      · exact hmem

/-- **The search loop of `alloc`** over a well-linked set of lists: it unlinks the head of
the first non-empty list from order `k` on, or finds none. -/
theorem allocSearch_spec (hv : ListsValid a) (r : Bool) :
    ∀ fuel k, k + fuel = maxOrder + 1 →
      ((∀ j, k ≤ j → j ≤ maxOrder → a.freeList j = []) ∧
          allocSearch r fuel k a = .ok (.exhausted a)) ∨
        ∃ j ptr rest, k ≤ j ∧ j ≤ maxOrder ∧ (∀ i, k ≤ i → i < j → a.freeList i = []) ∧
          a.freeList j = ptr :: rest ∧
          allocSearch r fuel k a = .ok (.found j (ptrToPage a.base ptr) (a.setFreeList j rest))
  | 0, k, hk => Or.inl ⟨fun j hj hj' => absurd hj' (by omega), rfl⟩
  | fuel + 1, k, hk => by
    have hkm : k ≤ maxOrder := by omega
    cases hl : a.freeList k with
    | nil =>
      have hstep : allocSearch r (fuel + 1) k a = allocSearch r fuel (k + 1) a := by
        simp only [allocSearch, hl]
      rw [hstep]
      rcases allocSearch_spec hv r fuel (k + 1) (by omega) with ⟨hall, he⟩ |
          ⟨j, ptr, rest, hj, hjm, hbelow, hlj, hf⟩
      · refine Or.inl ⟨fun j hj hj' => ?_, he⟩
        rcases Nat.eq_or_lt_of_le hj with rfl | hlt
        · exact hl
        · exact hall j hlt hj'
      · refine Or.inr ⟨j, ptr, rest, by omega, hjm, fun i hi hij => ?_, hlj, hf⟩
        rcases Nat.eq_or_lt_of_le hi with rfl | hlt
        · exact hl
        · exact hbelow i hlt hij
    | cons ptr rest =>
      have hmem : ptr ∈ a.freeList k := by
        rw [hl]
        exact List.mem_cons_self ..
      have hval := hv k hkm ptr hmem
      have hrm := removeFreeBlockWithRepair_of_valid hmem (hv k hkm)
      rw [hl, List.erase_cons_head] at hrm
      refine Or.inr ⟨k, ptr, rest, le_rfl, hkm, fun i hi hik => absurd hik (by omega), hl, ?_⟩
      simp only [allocSearch, hl, hval, if_true, hrm, ok_bind]
      rfl

/-! ## The split loop -/

section Split

variable {b k p : Nat}

theorem markFreeBlock_flags_of_not_mem (hp : p ∉ block b k) :
    (markFreeBlock a b k).pageFlags p = a.pageFlags p := by
  have hpb : p ≠ b := fun he => hp (he ▸ head_mem_block b k)
  simp only [markFreeBlock, Function.update_apply, if_neg hpb]
  rw [mem_block] at hp
  rw [fillRange_apply, if_neg (by omega)]

theorem markFreeBlock_flags_head : (markFreeBlock a b k).pageFlags b = freeHeadFlag k := by
  simp [markFreeBlock]

theorem markFreeBlock_flags_interior (hp : p ∈ block b k) (hne : p ≠ b) :
    (markFreeBlock a b k).pageFlags p = flagFreeInterior := by
  simp only [markFreeBlock, Function.update_apply, if_neg hne]
  rw [mem_block] at hp
  have := Nat.one_le_two_pow (n := k)
  exact fillRange_of_mem (by omega) (by omega)

/-- **One round of the split loop**: the upper half of the set-aside block of order `k + 1`
becomes a free block on `free_list[k]`, and the lower half stays aside. -/
theorem Layout.split {h : Nat} (hl : Layout a (block h (k + 1))) (hs : FreeSpan a h (k + 1)) :
    Layout (linkFreeBlockUnchecked (markFreeBlock a (h + 2 ^ k) k) k
      (pageToPtr a.base (h + 2 ^ k))) (block h k) ∧
    FreeSpan (linkFreeBlockUnchecked (markFreeBlock a (h + 2 ^ k) k) k
      (pageToPtr a.base (h + 2 ^ k))) h k ∧
    (linkFreeBlockUnchecked (markFreeBlock a (h + 2 ^ k) k) k
      (pageToPtr a.base (h + 2 ^ k))).pageFlags h = a.pageFlags h ∧
    pageState (linkFreeBlockUnchecked (markFreeBlock a (h + 2 ^ k) k) k
      (pageToPtr a.base (h + 2 ^ k))) = pageState a := by
  set b := h + 2 ^ k with hb
  set a₂ := linkFreeBlockUnchecked (markFreeBlock a b k) k (pageToPtr a.base b)
  have hk : k ≤ maxOrder := by have := hs.order_le; omega
  have hfit : h + 2 ^ (k + 1) ≤ a.totalPages := hs.fits
  rw [pow_succ] at hfit
  have htot : a₂.totalPages = a.totalPages := rfl
  have hpos := Nat.one_le_two_pow (n := k)
  have hsub : block b k ⊆ block h (k + 1) := upper_half_subset h k
  have hlow : ∀ p ∈ block h k, p ∉ block b k := fun p hp hp' =>
    Set.disjoint_left.mp (disjoint_halves h k) hp hp'
  have hflags : ∀ p ∉ block b k, a₂.pageFlags p = a.pageFlags p :=
    fun p hp => markFreeBlock_flags_of_not_mem hp
  have hlist : ∀ j, a₂.freeList j =
      if j = k then pageToPtr a.base b :: a.freeList k else a.freeList j := by
    intro j
    simp only [a₂, linkFreeBlockUnchecked, PageAllocator.setFreeList, Function.update_apply]
    rfl
  have hag : Agree a a₂ (block b k)ᶜ :=
    ⟨rfl, rfl, fun p hp => hflags p hp, fun _ _ => rfl, fun _ _ => rfl, fun _ _ => rfl⟩
  have hfb : FreeBlock a₂ b k :=
    { aligned := dvd_add_half hs.aligned
      order_le := hk
      above_meta := hs.above_meta.trans (Nat.le_add_right _ _)
      fits := by omega
      interior := fun p hp hne => markFreeBlock_flags_interior hp hne
      free := fun p hp => (hs.free p (hsub hp)).of_tables rfl rfl rfl
      head := markFreeBlock_flags_head }
  have hold : ∀ j ≤ maxOrder, ∀ ptr ∈ a.freeList j, ∃ x, ptr = pageToPtr a.base x ∧
      x ∉ block h (k + 1) ∧ a.metadataPages ≤ x ∧ x < a.totalPages ∧
      a.pageFlags x = freeHeadFlag j := fun j hj ptr hmem => (hl.listed j hj ptr).mp hmem
  have hbnot : pageToPtr a.base b ∉ a.freeList k := by
    intro hmem
    obtain ⟨x, hx, hxh, -⟩ := hold k hk _ hmem
    rw [← pageToPtr_inj hx] at hxh
    exact hxh (hsub (head_mem_block b k))
  have hfree : ∀ p, a₂.pageFlags p = a.pageFlags p ∨
      (FreeFlag (a.pageFlags p) ∧ FreeFlag (a₂.pageFlags p)) := by
    intro p
    by_cases hp : p ∈ block b k
    · have hph : p ≠ h := fun he => hlow p (he ▸ head_mem_block h k) hp
      refine Or.inr ⟨Or.inl (hs.interior p (hsub hp) hph), ?_⟩
      by_cases hpb : p = b
      · rw [hpb, hfb.head]
        exact Or.inr ⟨k, hk, rfl⟩
      · exact Or.inl (hfb.interior p hp hpb)
    · exact Or.inl (hflags p hp)
  have hps : pageState a₂ = pageState a := pageState_eq_of_freeFlags hfree rfl
  refine ⟨⟨hl.toZoneShape.congr hag rfl fun p hp => hs.above_meta.trans (hsub hp).1, ?_, ?_, ?_,
    ?_, ?_⟩, ?_, hflags h (hlow h (head_mem_block h k)), hps⟩
  · intro p hm ht hp
    by_cases hpb : p ∈ block b k
    · exact .free hfb (disjoint_halves h k).symm hpb
    · have hp' : p ∉ block h (k + 1) := by
        rw [block_succ]
        rintro (hp' | hp')
        · exact hp hp'
        · exact hpb hp'
      exact (hl.placed p hm ht hp').transfer hag hpb fun _ _ _ hd _ =>
        ⟨hd.mono_right hsub, hd.mono_right (block_subset_succ h k)⟩
  · intro j hj
    rw [hlist j]
    split_ifs with hjk
    · subst hjk
      exact List.nodup_cons.mpr ⟨hbnot, hl.nodup j hj⟩
    · exact hl.nodup j hj
  · intro j hj ptr
    rw [hlist j]
    constructor
    · intro hmem
      by_cases hnew : j = k ∧ ptr = pageToPtr a.base b
      · obtain ⟨rfl, rfl⟩ := hnew
        exact ⟨b, rfl, fun hm => hlow b hm (head_mem_block b j), hfb.above_meta, by omega,
          hfb.head⟩
      · have hmem' : ptr ∈ a.freeList j := by
          split_ifs at hmem with hjk
          · subst hjk
            rcases List.mem_cons.mp hmem with he | he
            · exact absurd ⟨rfl, he⟩ hnew
            · exact he
          · exact hmem
        obtain ⟨x, rfl, hx, hm, ht, hf⟩ := hold j hj _ hmem'
        have hxb : x ∉ block b k := fun hxb => hx (hsub hxb)
        exact ⟨x, rfl, fun hxl => hx (block_subset_succ h k hxl), hm, ht,
          (hflags x hxb).trans hf⟩
    · rintro ⟨x, rfl, hx, hm, ht, hf⟩
      by_cases hxb : x ∈ block b k
      · have hxe : x = b := by
          by_contra hne
          rw [hfb.interior x hxb hne] at hf
          exact freeHeadFlag_ne_interior (order_lt_32 hj) hf.symm
        subst hxe
        have hjk : j = k := freeHeadFlag_inj (order_lt_32 hj) (order_lt_32 hk)
          (hf.symm.trans hfb.head)
        subst hjk
        rw [if_pos rfl]
        exact List.mem_cons_self ..
      · have hx' : x ∉ block h (k + 1) := by
          rw [block_succ]
          rintro (h₁ | h₂)
          · exact hx h₁
          · exact hxb h₂
        have hmem := (hl.listed j hj _).mpr ⟨x, rfl, hx', hm, ht, (hflags x hxb).symm.trans hf⟩
        split_ifs with hjk
        · subst hjk
          exact List.mem_cons_of_mem _ hmem
        · exact hmem
  · intro o ho
    rw [hps]
    exact hl.owner_pages o ho
  · intro o ho
    rw [ownedHeads_eq_of_freeFlags hfree rfl rfl]
    exact hl.owner_objects o ho
  · refine ⟨⟨dvd_of_dvd_succ hs.aligned, hk, hs.above_meta, by omega⟩, fun p hp hne => ?_,
      fun p hp => (hs.free p (block_subset_succ h k hp)).of_tables rfl rfl rfl⟩
    rw [hflags p (hlow p hp)]
    exact hs.interior p (block_subset_succ h k hp) hne

/-- **The split loop** splits the set-aside block down to the wanted order, keeping its
head's flag and everything a client sees. -/
theorem splitLoop_spec {h order : Nat} : ∀ k (a : PageAllocator), order ≤ k →
    Layout a (block h k) → FreeSpan a h k →
    ∃ a', splitLoop h order k a = .ok a' ∧ Layout a' (block h order) ∧ FreeSpan a' h order ∧
      a'.pageFlags h = a.pageFlags h ∧ pageState a' = pageState a ∧ a'.base = a.base ∧
      a'.pageKinds = a.pageKinds ∧ a'.pageRefcounts = a.pageRefcounts ∧ counts a' = counts a
  | 0, a, hk, hl, hs => by
    obtain rfl : order = 0 := by omega
    exact ⟨a, rfl, hl, hs, rfl, rfl, rfl, rfl, rfl, rfl⟩
  | k + 1, a, hk, hl, hs => by
    rcases Nat.eq_or_lt_of_le hk with rfl | hlt
    · exact ⟨a, by simp [splitLoop], hl, hs, rfl, rfl, rfl, rfl, rfl, rfl⟩
    · obtain ⟨hl₂, hs₂, hh₂, hps₂⟩ := hl.split hs
      have hk' : k ≤ maxOrder := by have := hs.order_le; omega
      have hins : insertFreeBlock (markFreeBlock a (h + 2 ^ k) k) k (pageToPtr a.base (h + 2 ^ k)) =
          .ok (linkFreeBlockUnchecked (markFreeBlock a (h + 2 ^ k) k) k
            (pageToPtr a.base (h + 2 ^ k))) :=
        insertFreeBlock_of_valid fun x hx => hl₂.valid_of_mem hk' (by
          simp only [linkFreeBlockUnchecked, PageAllocator.setFreeList, Function.update_self]
          exact List.mem_cons_of_mem _ hx)
      obtain ⟨a', hrun, hl', hs', hh', hps', hb', hkd', hr', hc'⟩ :=
        splitLoop_spec k _ (Nat.le_of_lt_succ hlt) hl₂ hs₂
      refine ⟨a', ?_, hl', hs', hh'.trans hh₂, hps'.trans hps₂, hb', hkd', hr', hc'⟩
      simp only [splitLoop, if_pos hlt, hins, ok_bind]
      exact hrun

end Split

/-! ## Marking the allocated block -/

section Mark

variable {h k p : Nat} {owner : UInt8}

theorem markAllocated_flags_head : (markAllocated a h k owner).pageFlags h = allocHeadFlag k := by
  simp [markAllocated]

theorem markAllocated_flags_interior (hp : p ∈ block h k) (hne : p ≠ h) :
    (markAllocated a h k owner).pageFlags p = flagAllocCont := by
  simp only [markAllocated, Function.update_apply, if_neg hne]
  rw [mem_block] at hp
  have := Nat.one_le_two_pow (n := k)
  exact fillRange_of_mem (by omega) (by omega)

theorem markAllocated_flags_of_not_mem (hp : p ∉ block h k) :
    (markAllocated a h k owner).pageFlags p = a.pageFlags p := by
  have hph : p ≠ h := fun he => hp (he ▸ head_mem_block h k)
  simp only [markAllocated, Function.update_apply, if_neg hph]
  rw [mem_block] at hp
  rw [fillRange_apply, if_neg (by omega)]

theorem markAllocated_owners (p : Nat) : (markAllocated a h k owner).pageOwners p =
    if p ∈ block h k then owner else a.pageOwners p := by
  simp only [markAllocated, fillRange_apply, mem_block]

/-- **The marking loops and the owner accounting of `alloc`** turn the set-aside block
into a block allocated to `owner`: a client sees exactly its pages go to `owner`. -/
theorem Layout.allocate (hl : Layout a (block h k)) (hs : FreeSpan a h k)
    (hhead : pageState a h = .free) (hown : physicalPageOwnerIsValid owner = true) :
    ∃ a', accountOwnerAlloc (markAllocated a h k owner) owner (2 ^ k) 1 = .ok a' ∧
      Layout a' ∅ ∧ AllocBlock a' h k owner ∧ pageState a' = allocPages (pageState a) h k owner ∧
      a'.base = a.base ∧ a'.pageKinds = fillRange a.pageKinds h (2 ^ k) .normal ∧
      a'.pageRefcounts = fillRange a.pageRefcounts h (2 ^ k) 1 ∧ counts a' = counts a := by
  set a₁ := markAllocated a h k owner
  set a' : PageAllocator := { a₁ with
    ownerPages := Function.update a₁.ownerPages owner.toNat (a₁.ownerPages owner.toNat + 2 ^ k)
    ownerObjects := Function.update a₁.ownerObjects owner.toNat (a₁.ownerObjects owner.toNat + 1) }
  have hacc : accountOwnerAlloc a₁ owner (2 ^ k) 1 = .ok a' := if_pos hown
  have hflags : ∀ p ∉ block h k, a'.pageFlags p = a.pageFlags p :=
    fun _ hp => show a₁.pageFlags _ = _ from markAllocated_flags_of_not_mem hp
  have howners : ∀ p ∉ block h k, a'.pageOwners p = a.pageOwners p := fun p hp => by
    show a₁.pageOwners p = _
    rw [markAllocated_owners, if_neg hp]
  have hag : Agree a a' (block h k)ᶜ :=
    ⟨rfl, rfl, hflags, fun p hp => by simp only [a', a₁, markAllocated, fillRange_apply,
        ← mem_block, if_neg (show p ∉ block h k from hp)],
      howners, fun p hp => by simp only [a', a₁, markAllocated, fillRange_apply, ← mem_block,
        if_neg (show p ∉ block h k from hp)]⟩
  have hab : AllocBlock a' h k owner :=
    { aligned := hs.aligned
      order_le := hs.order_le
      above_meta := hs.above_meta
      fits := hs.fits
      head := show a₁.pageFlags h = _ from markAllocated_flags_head
      interior := fun _ hp hne => show a₁.pageFlags _ = _ from markAllocated_flags_interior hp hne
      owner := fun p hp => by
        show a₁.pageOwners p = _
        rw [markAllocated_owners, if_pos hp]
      owner_valid := hown }
  have hps : pageState a' = allocPages (pageState a) h k owner := by
    funext p
    by_cases hp : p ∈ block h k
    · rw [allocPages_of_mem hp]
      exact hab.pageState_eq hp
    · rw [allocPages_of_not_mem hp]
      exact pageState_congr (hflags p hp) (howners p hp)
  have hfree : ∀ p ∈ block h k, pageState a p = .free := fun _ hp => hs.pageState_eq hhead hp
  have hheads : ∀ o, ownedHeads a' o = if o = owner then insert h (ownedHeads a o) else ownedHeads a o := by
    intro o
    have hh : h < a.totalPages := by have := Nat.one_le_two_pow (n := k); have := hs.fits; omega
    ext p
    by_cases hp : p ∈ block h k
    · by_cases hph : p = h
      · subst hph
        have hown' : loadPageOwner (a'.pageOwners p) = owner := by
          rw [hab.owner p hp, loadPageOwner, if_pos hown]
        have hnew : p ∈ ownedHeads a' o ↔ o = owner := by
          simp only [ownedHeads, Finset.mem_filter, Finset.mem_range, hab.head, hown',
            allocHeadFlag_and (order_lt_32 hs.order_le)]
          exact ⟨fun e => e.2.2.symm, fun e => ⟨hh, trivial, e.symm⟩⟩
        have hold : p ∉ ownedHeads a o := by
          simp [ownedHeads, not_allocHead_of_pageState_free hhead]
        rw [hnew]
        split_ifs with ho
        · simp [ho]
        · simp [hold, ho]
      · have hnew : ¬ a'.pageFlags p &&& 0xC0 = flagAllocHead := by
          rw [hab.interior p hp hph]
          decide
        have hold : ¬ a.pageFlags p &&& 0xC0 = flagAllocHead := by
          rw [hs.interior p hp hph]
          decide
        split_ifs with ho <;>
          simp [ownedHeads, hnew, hold, hph]
    · have hm : p ∈ ownedHeads a' o ↔ p ∈ ownedHeads a o := by
        simp only [ownedHeads, Finset.mem_filter, Finset.mem_range, hflags p hp, howners p hp]
        rfl
      have hph : p ≠ h := fun he => hp (he ▸ head_mem_block h k)
      split_ifs with ho
      · rw [hm, Finset.mem_insert, or_iff_right hph]
      · exact hm
  refine ⟨a', hacc, ⟨hl.toZoneShape.congr hag rfl fun p hp => hs.above_meta.trans hp.1, ?_,
    hl.nodup, ?_, ?_, ?_⟩, hab, hps, rfl, rfl, rfl, rfl⟩
  · intro p hm ht _
    by_cases hp : p ∈ block h k
    · exact .alloc hab (Set.disjoint_empty _) hp
    · exact (hl.placed p hm ht hp).transfer hag hp fun _ _ _ hd _ =>
        ⟨hd, Set.disjoint_empty _⟩
  · intro j hj ptr
    show ptr ∈ a.freeList j ↔ _
    rw [hl.listed j hj ptr]
    constructor
    · rintro ⟨x, rfl, hx, hm, ht, hf⟩
      exact ⟨x, rfl, Set.notMem_empty x, hm, ht, (hflags x hx).trans hf⟩
    · rintro ⟨x, rfl, -, hm, ht, hf⟩
      have hx : x ∉ block h k := by
        intro hx
        by_cases hxh : x = h
        · subst hxh
          exact freeHeadFlag_ne_allocHeadFlag (order_lt_32 hj) (order_lt_32 hs.order_le)
            (hf.symm.trans hab.head)
        · exact freeHeadFlag_ne_cont (order_lt_32 hj) (hf.symm.trans (hab.interior x hx hxh))
      exact ⟨x, rfl, hx, hm, ht, (hflags x hx).symm.trans hf⟩
  · intro o ho
    show Function.update a.ownerPages owner.toNat (a.ownerPages owner.toNat + 2 ^ k) o.toNat =
      (ownedIn a.totalPages (pageState a') o).card
    rw [hps, card_ownedIn_allocPages o hs.fits hfree]
    by_cases hoo : o = owner
    · subst hoo
      rw [Function.update_self, if_pos rfl, hl.owner_pages o ho]
    · rw [Function.update_of_ne (fun e => hoo (UInt8.toNat_inj.mp e)), if_neg hoo, Nat.add_zero,
        hl.owner_pages o ho]
  · intro o ho
    show Function.update a.ownerObjects owner.toNat (a.ownerObjects owner.toNat + 1) o.toNat = _
    rw [hheads o]
    by_cases hoo : o = owner
    · subst hoo
      rw [Function.update_self, if_pos rfl, hl.owner_objects o ho,
        Finset.card_insert_of_notMem]
      simp only [ownedHeads, Finset.mem_filter, not_allocHead_of_pageState_free hhead,
        false_and, and_false, not_false_eq_true]
    · rw [Function.update_of_ne (fun e => hoo (UInt8.toNat_inj.mp e)), if_neg hoo,
        hl.owner_objects o ho]

end Mark

/-! ## `alloc` -/

/-- What `alloc` leaves after handing the block of order `k` at `h` to `owner`: the block
was free and in the zone, it is now allocated to `owner` with every page of kind `NORMAL`
and refcount one, `free_count` is down by its size, nothing else a client sees changes, and
the allocator is well formed. -/
structure Allocated (a a' : PageAllocator) (h k : Nat) (owner : UInt8) : Prop where
  inZone : InZone a h k
  was_free : ∀ p ∈ block h k, pageState a p = .free
  wf : WellFormed a'
  allocBlock : AllocBlock a' h k owner
  pageState_eq : pageState a' = allocPages (pageState a) h k owner
  kinds_eq : a'.pageKinds = fillRange a.pageKinds h (2 ^ k) .normal
  refcounts_eq : a'.pageRefcounts = fillRange a.pageRefcounts h (2 ^ k) 1
  base_eq : a'.base = a.base
  total_eq : a'.totalPages = a.totalPages
  freeCount_eq : a'.freeCount = a.freeCount - (2 ^ k).toUInt32
  cached_eq : a'.cachedOrder0Count = a.cachedOrder0Count

section Alloc

variable {s order : Nat} {owner : UInt8}

theorem block_subset_of_le (h : Nat) {k k' : Nat} (hk : k ≤ k') : block h k ⊆ block h k' := by
  intro p hp
  rw [mem_block] at hp ⊢
  have := Nat.pow_le_pow_right (show 0 < 2 by decide) hk
  omega

/-- **`alloc` on a well-formed allocator**: when every list from the wanted order up is
empty it returns null and changes nothing; otherwise it returns the address of an aligned
block of the wanted order whose pages were free, gives exactly those pages to `owner`,
and leaves a well-formed allocator. -/
theorem alloc_spec (hl : WellFormed a) (hown : physicalPageOwnerIsValid owner = true)
    (hord : sizeToOrder s = some order) :
    ((∀ j, order ≤ j → j ≤ maxOrder → a.freeList j = []) ∧ alloc a s owner = .ok (0, a)) ∨
      ((∃ j, order ≤ j ∧ j ≤ maxOrder ∧ a.freeList j ≠ []) ∧
        ∃ h a', alloc a s owner = .ok (pageToPtr a.base h, a') ∧ Allocated a a' h order owner) := by
  have hmax : order ≤ maxOrder := sizeToOrder_le hord
  rcases allocSearch_spec hl.listsValid false (maxOrder + 1 - order) order (by omega) with
    ⟨hall, hex⟩ | ⟨j, ptr, rest, hj, hjm, -, hlist, hfound⟩
  · -- every list from the wanted order on is empty: the first pass finds nothing
    refine Or.inl ⟨hall, ?_⟩
    simp only [alloc, hord, hex, ok_bind]
    rfl
  · have hmem : ptr ∈ a.freeList j := by
      rw [hlist]
      exact List.mem_cons_self ..
    obtain ⟨h, rfl, hb, -, -⟩ := hl.mem_freeList hjm hmem
    have hpop : Layout (a.setFreeList j rest) (block h j) := hl.pop hjm hlist hb
    have hb₁ : FreeBlock (a.setFreeList j rest) h j :=
      hb.congr ⟨rfl, rfl, fun _ _ => rfl, fun _ _ => rfl, fun _ _ => rfl, fun _ _ => rfl⟩
    have hre := freeBlockPagesAreReusable_of_freeBlock hb₁ hl.total_lt
    obtain ⟨a₂, hsplit, hl₂, hs₂, -, hps₂, hbase₂, hkd₂, hr₂, hc₂⟩ :=
      splitLoop_spec j _ hj hpop hb₁.toFreeSpan
    have hhead : pageState a₂ h = .free := by
      rw [hps₂]
      exact hb₁.pageState_eq (head_mem_block h j)
    obtain ⟨a₃, hacc, hl₃, hab₃, hps₃, hbase₃, hkd₃, hr₃, hc₃⟩ := hl₂.allocate hs₂ hhead hown
    have hsub : block h order ⊆ block h j := block_subset_of_le h hj
    have hc : counts a₃ = counts a := hc₃.trans hc₂
    simp only [counts, Prod.mk.injEq] at hc
    refine Or.inr ⟨⟨j, hj, hjm, by rw [hlist]; exact List.cons_ne_nil _ _⟩, h,
      { a₃ with freeCount := a₃.freeCount - (2 ^ order).toUInt32 }, ?_,
      ⟨⟨(pow_dvd_pow 2 hj).trans hb.aligned, hmax, hb.above_meta,
        (Nat.add_le_add_left (Nat.pow_le_pow_right (by decide) hj) h).trans hb.fits⟩,
      fun p hp => hb.pageState_eq (hsub hp), hl₃.setCounts _ _,
      hab₃.congr (Agree.setCounts _ _), hps₃.trans (by rw [hps₂]; rfl),
      hkd₃.trans (by rw [hkd₂]; rfl), hr₃.trans (by rw [hr₂]; rfl), hbase₃.trans hbase₂,
      hc.1, by rw [hc.2.1], hc.2.2⟩⟩
    simp only [alloc, hord, hfound, ptrToPage_pageToPtr, ok_bind, hre, if_true, hsplit, hacc,
      pure_eq_ok]
    rw [hbase₃, hbase₂]
    rfl

/-- **`alloc` keeps the counters exact**: the block's pages were free, so `free_count`
counted them, and it loses exactly them. -/
theorem Counted.allocated {a' : PageAllocator} {h k : Nat} (hc : Counted a)
    (hA : Allocated a a' h k owner) : Counted a' := by
  have hfree : (freeIn a.totalPages (allocPages (pageState a) h k owner)).card + 2 ^ k =
      (freeIn a.totalPages (pageState a)).card :=
    card_freeIn_allocPages hA.inZone.fits hA.was_free
  have hk := toNat_blockSize hA.inZone.order_le
  have hle : (2 ^ k).toUInt32 ≤ a.freeCount := by
    rw [UInt32.le_iff_toNat_le, hk, hc.free_count]
    omega
  refine ⟨?_, ?_⟩
  · rw [hA.freeCount_eq, UInt32.toNat_sub_of_le _ _ hle, hk, hc.free_count, hA.total_eq,
      hA.pageState_eq]
    omega
  · rw [hA.cached_eq, hc.cached_count, hA.total_eq, hA.pageState_eq,
      cachedIn_allocPages hA.was_free]

end Alloc

end Wos.PageAlloc
