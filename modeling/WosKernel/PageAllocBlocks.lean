import WosKernel.PageAllocRange
import WosKernel.PageAllocRun

/-! # The operations on allocated blocks

`mark_allocated_block_kind`, `reassign_allocated_block_owner` and
`split_allocated_block_to_order0` act on the live block whose head is at `ptr`.  On a
well-formed allocator the checks they make find exactly the live blocks
(`allocatedBlockAt_of_allocBlock`, `allocBlock_of_allocatedBlockAt`), and each keeps the
layout and the counters exact:

* marking a kind changes the kinds of the block's pages only, which the layout reads at
  free and cached pages alone (`Layout.setKinds`);
* reassigning moves the block, its pages and its one object from its owner to the new
  one, and never underflows the old owner's counters (`Layout.reassign`);
* splitting turns the block into as many live order-0 blocks of the same owner, which
  holds one object per page after (`Layout.splitToOrder0`).

`split_allocated_block_to_order0` checks no `MAX_ORDER`; on a well-formed allocator it
still accepts exactly the addresses the other two accept
(`splitAllocatedBlockToOrder0_accepts`).
-/

namespace Wos.PageAlloc

open Buddy

variable {a : PageAllocator}

/-! ## The block at an address -/

section Find

variable {ptr h k : Nat} {o : UInt8}

/-- The checks of `mark_allocated_block_kind` and `reassign_allocated_block_owner` accept
the head of every live block. -/
theorem allocatedBlockAt_of_allocBlock (hl : WellFormed a) (hb : AllocBlock a h k o) :
    allocatedBlockAt a (pageToPtr a.base h) = some (h, k) := by
  have hpos : 0 < h := Nat.lt_of_lt_of_le hl.meta_pos hb.above_meta
  have ht : h < a.totalPages := by have := Nat.one_le_two_pow (n := k); have := hb.fits; omega
  have hk32 := order_lt_32 hb.order_le
  have hcheck : (decide (maxOrder < k) || blockOverruns a.totalPages h (2 ^ k)) = false := by
    rw [blockOverruns_eq_false hb.fits hl.total_lt, Bool.or_false, decide_eq_false_iff_not,
      Nat.not_lt]
    exact hb.order_le
  simp only [allocatedBlockAt, zoneAddr_of_page hl hpos ht, ptrToPage_pageToPtr, hb.head,
    allocHeadFlag_and hk32, allocHeadFlag_order hk32, bne_self_eq_false, Bool.false_eq_true,
    if_false, Nat.not_le.mpr ht, hcheck]

/-- The checks accept nothing but the head of a live block. -/
theorem allocBlock_of_allocatedBlockAt (hl : WellFormed a)
    (hf : allocatedBlockAt a ptr = some (h, k)) :
    ptr = pageToPtr a.base h ∧ ∃ o, AllocBlock a h k o := by
  simp only [allocatedBlockAt] at hf
  split_ifs at hf with hz ht hflag
  obtain ⟨rfl, rfl⟩ := Prod.mk.inj (Option.some.inj hf)
  obtain ⟨hp, -⟩ := page_of_zoneAddr hl hz
  rw [bne_iff_ne, ne_eq, not_not] at hflag
  obtain ⟨o, hb, -⟩ := hl.head_alloc (Nat.not_le.mp ht) (Set.notMem_empty _) hflag
  exact ⟨hp, o, hb⟩

theorem allocatedBlockAt_of_not_live (hl : WellFormed a)
    (hno : ∀ h k o, ptr = pageToPtr a.base h → ¬ AllocBlock a h k o) :
    allocatedBlockAt a ptr = none := by
  cases hf : allocatedBlockAt a ptr with
  | none => rfl
  | some hk =>
    obtain ⟨hp, o, hb⟩ := allocBlock_of_allocatedBlockAt hl hf
    exact absurd hb (hno _ _ o hp)

end Find

/-! ## `mark_allocated_block_kind` -/

section Kinds

variable {hole : Set Nat} {ptr h k : Nat} {o : UInt8}

/-- **Kinds matter to the layout at free and cached pages only**: a new kind table that
differs from the old one at allocated pages alone keeps the layout. -/
theorem Layout.setKinds (hl : Layout a hole) (f : Nat → PageKind)
    (hf : ∀ p, f p ≠ a.pageKinds p → ∃ o, pageState a p = .allocated o) :
    Layout { a with pageKinds := f } hole := by
  have hkeep : ∀ p, (pageState a p = .free ∨ pageState a p = .cached) → f p = a.pageKinds p :=
    fun p hp => by
      by_contra hne
      obtain ⟨o, ho⟩ := hf p hne
      rcases hp with hp | hp <;> rw [hp] at ho <;> exact PageState.noConfusion ho
  refine ⟨⟨hl.meta_pos, hl.meta_le, hl.total_lt, hl.base_aligned, hl.reserved⟩,
    fun p hm ht hp => ?_, hl.nodup, hl.listed, hl.owner_pages, hl.owner_objects⟩
  cases hl.placed p hm ht hp with
  | free hb hd hpb =>
    exact .free (hb.congr ⟨rfl, rfl, fun _ _ => rfl,
      fun q hq => hkeep q (Or.inl (hb.pageState_eq hq)), fun _ _ => rfl, fun _ _ => rfl⟩) hd hpb
  | alloc hb hd hpb =>
    exact .alloc ⟨⟨hb.aligned, hb.order_le, hb.above_meta, hb.fits⟩, hb.head, hb.interior,
      hb.owner, hb.owner_valid⟩ hd hpb
  | cached hc hfr =>
    have hk : f p = a.pageKinds p := hkeep p (Or.inr (pageState_eq_cached_iff.mpr hc))
    exact .cached hc ⟨hk.trans hfr.kind, hfr.owner, hfr.refcount⟩

theorem markAllocatedBlockKind_of_allocBlock (hl : WellFormed a) (hb : AllocBlock a h k o)
    (kind : PageKind) :
    markAllocatedBlockKind a (pageToPtr a.base h) kind =
      (true, { a with pageKinds := fillRange a.pageKinds h (2 ^ k) kind }) := by
  rw [markAllocatedBlockKind, allocatedBlockAt_of_allocBlock hl hb]

/-- **`mark_allocated_block_kind` keeps the layout and the counters** and changes nothing a
client sees: it sets the kind of every page of the live block at `ptr`, and refuses any
other address, changing nothing. -/
theorem markAllocatedBlockKind_spec (hl : WellFormed a) (hc : Counted a) (ptr : Nat)
    (kind : PageKind) :
    WellFormed (markAllocatedBlockKind a ptr kind).2 ∧
      Counted (markAllocatedBlockKind a ptr kind).2 ∧
      pageState (markAllocatedBlockKind a ptr kind).2 = pageState a := by
  by_cases hlive : ∃ h k o, ptr = pageToPtr a.base h ∧ AllocBlock a h k o
  · obtain ⟨h, k, o, rfl, hb⟩ := hlive
    rw [markAllocatedBlockKind_of_allocBlock hl hb]
    refine ⟨Layout.setKinds hl _ fun p hp => ⟨o, ?_⟩, ⟨hc.free_count, hc.cached_count⟩, rfl⟩
    rw [fillRange_apply] at hp
    split_ifs at hp with hin
    · exact hb.pageState_eq (mem_block.mpr hin)
    · exact absurd rfl hp
  · have hno : ∀ h k o, ptr = pageToPtr a.base h → ¬ AllocBlock a h k o :=
      fun h k o hp hb => hlive ⟨h, k, o, hp, hb⟩
    rw [markAllocatedBlockKind, allocatedBlockAt_of_not_live hl hno]
    exact ⟨hl, hc, rfl⟩

end Kinds

/-! ## `split_allocated_block_to_order0` -/

section Split

variable {ptr h k : Nat} {o : UInt8}

/-- What `split_allocated_block_to_order0` does at the head of a live block of `o`: nothing
to a block of order 0, and the stores of the split to any other. -/
theorem splitAllocatedBlockToOrder0_of_allocBlock (hl : WellFormed a) (hb : AllocBlock a h k o) :
    splitAllocatedBlockToOrder0 a (pageToPtr a.base h) =
      if k = 0 then (true, a) else (true, splitStores a h k (a.pageKinds h) o) := by
  have hpos : 0 < h := Nat.lt_of_lt_of_le hl.meta_pos hb.above_meta
  have ht : h < a.totalPages := by have := Nat.one_le_two_pow (n := k); have := hb.fits; omega
  have hk32 := order_lt_32 hb.order_le
  have hown : loadPageOwner (a.pageOwners h) = o := by
    rw [hb.owner h (head_mem_block h k), loadPageOwner, if_pos hb.owner_valid]
  simp only [splitAllocatedBlockToOrder0, zoneAddr_of_page hl hpos ht, ptrToPage_pageToPtr,
    hb.head, allocHeadFlag_and hk32, allocHeadFlag_order hk32, bne_self_eq_false,
    Bool.false_eq_true, if_false, Nat.not_le.mpr ht, blockOverruns_eq_false hb.fits hl.total_lt,
    hown, hb.owner_valid, Bool.not_true]

/-- **Splitting a live block keeps the layout**: its `2 ^ k` pages become live order-0 blocks
of the same owner, which holds one object for each. -/
theorem Layout.splitToOrder0 (hl : Layout a ∅) (hb : AllocBlock a h k o) :
    Layout (splitStores a h k (a.pageKinds h) o) ∅ ∧
      (∀ p ∈ block h k, AllocBlock (splitStores a h k (a.pageKinds h) o) p 0 o) ∧
      pageState (splitStores a h k (a.pageKinds h) o) =
      pageState a := by
  set a' := splitStores a h k (a.pageKinds h) o
  have hout : ∀ p ∉ block h k, ¬ (h ≤ p ∧ p < h + 2 ^ k) := fun p hp h' => hp (mem_block.mpr h')
  have hag : Agree a a' (block h k)ᶜ :=
    ⟨rfl, rfl, fun p hp => by simp only [a', splitStores, fillRange_apply, if_neg (hout p hp)],
      fun p hp => by simp only [a', splitStores, fillRange_apply, if_neg (hout p hp)],
      fun p hp => by simp only [a', splitStores, fillRange_apply, if_neg (hout p hp)],
      fun p hp => by
        simp only [a', splitStores]
        exact if_neg fun h' => hout p hp ⟨h'.1, h'.2.1⟩⟩
  have hflag : ∀ p ∈ block h k, a'.pageFlags p = flagAllocHead := fun p hp =>
    fillRange_of_mem (mem_block.mp hp).1 (mem_block.mp hp).2
  have hblk : ∀ p ∈ block h k, AllocBlock a' p 0 o := fun p hp =>
    have hp' := mem_block.mp hp
    { aligned := by rw [pow_zero]; exact one_dvd p
      order_le := Nat.zero_le _
      above_meta := hb.above_meta.trans hp'.1
      fits := by rw [pow_zero]; have := hb.fits; show p + 1 ≤ a.totalPages; omega
      head := (hflag p hp).trans flagAllocHead_eq
      interior := fun q hq hne => absurd (by rwa [block_zero, Set.mem_singleton_iff] at hq) hne
      owner := fun q hq => by
        rw [block_zero, Set.mem_singleton_iff] at hq
        subst hq
        exact fillRange_of_mem hp'.1 hp'.2
      owner_valid := hb.owner_valid }
  have hps : pageState a' = pageState a := by
    funext p
    by_cases hp : p ∈ block h k
    · rw [(hblk p hp).pageState_eq (head_mem_block p 0), hb.pageState_eq hp]
    · exact pageState_congr (hag.flags p hp) (hag.owners p hp)
  have hheads : ∀ o', ownedHeads a' o' =
      if o' = o then ownedHeads a o ∪ (Finset.Ico h (h + 2 ^ k)).erase h else ownedHeads a o' := by
    intro o'
    ext p
    by_cases hp : p ∈ block h k
    · have hpt : p < a.totalPages := by have := hb.fits; have := (mem_block.mp hp).2; omega
      have hnew : p ∈ ownedHeads a' o' ↔ o' = o := by
        simp only [ownedHeads, Finset.mem_filter, Finset.mem_range, hflag p hp,
          show flagAllocHead &&& 0xC0 = flagAllocHead by decide, true_and]
        rw [(allocated_of_pageState ((hblk p hp).pageState_eq (head_mem_block p 0))).2]
        exact ⟨fun e => e.2.symm, fun e => ⟨by show p < a.totalPages; exact hpt, e.symm⟩⟩
      rw [hnew]
      split_ifs with ho
      · simp only [ho, true_iff, Finset.mem_union, Finset.mem_erase, Finset.mem_Ico]
        by_cases hph : p = h
        · subst hph
          refine Or.inl ?_
          simp only [ownedHeads, Finset.mem_filter, Finset.mem_range, hb.head,
            allocHeadFlag_and (order_lt_32 hb.order_le), true_and]
          exact ⟨hpt, (allocated_of_pageState (hb.pageState_eq hp)).2⟩
        · exact Or.inr ⟨hph, mem_block.mp hp⟩
      · simp only [ho, false_iff]
        intro hm
        simp only [ownedHeads, Finset.mem_filter] at hm
        exact ho (hm.2.2.symm.trans (allocated_of_pageState (hb.pageState_eq hp)).2)
    · have hm : p ∈ ownedHeads a' o' ↔ p ∈ ownedHeads a o' := by
        simp only [ownedHeads, Finset.mem_filter, Finset.mem_range, hag.flags p hp,
          hag.owners p hp]
        rfl
      split_ifs with ho
      · subst ho
        rw [hm, Finset.mem_union, Finset.mem_erase, Finset.mem_Ico, ← mem_block]
        exact ⟨Or.inl, fun h' => h'.elim id fun h'' => absurd h''.2 hp⟩
      · exact hm
  refine ⟨⟨hl.toZoneShape.congr hag rfl fun p hp => hb.above_meta.trans (mem_block.mp hp).1,
    fun p hm ht _ => ?_, hl.nodup, fun j hj ptr => ?_, fun o' ho' => ?_, fun o' ho' => ?_⟩,
    hblk, hps⟩
  · by_cases hp : p ∈ block h k
    · exact .alloc (hblk p hp) (Set.disjoint_empty _) (head_mem_block p 0)
    · exact (hl.placed p hm ht (Set.notMem_empty p)).transfer hag hp fun _ _ hB _ hpB =>
        ⟨hB.disjoint_of_not_mem hb.blk hpB hp, Set.disjoint_empty _⟩
  · show ptr ∈ a.freeList j ↔ _
    rw [hl.listed j hj ptr]
    have hx : ∀ x, a.pageFlags x = freeHeadFlag j ∨ a'.pageFlags x = freeHeadFlag j →
        x ∉ block h k := by
      intro x hf hx
      rcases hf with hf | hf
      · have := pageState_of_freeHeadFlag (order_lt_32 hj) hf
        rw [hb.pageState_eq hx] at this
        exact PageState.noConfusion this
      · rw [hflag x hx] at hf
        exact freeHeadFlag_ne_allocHeadFlag (order_lt_32 hj) (by decide : 0 < 32)
          (hf.symm.trans flagAllocHead_eq)
    constructor
    · rintro ⟨x, rfl, -, hm, ht, hf⟩
      exact ⟨x, rfl, Set.notMem_empty x, hm, ht, (hag.flags x (hx x (Or.inl hf))).trans hf⟩
    · rintro ⟨x, rfl, -, hm, ht, hf⟩
      exact ⟨x, rfl, Set.notMem_empty x, hm, ht, (hag.flags x (hx x (Or.inr hf))).symm.trans hf⟩
  · show a.ownerPages o'.toNat = (ownedIn a.totalPages (pageState a') o').card
    rw [hps]
    exact hl.owner_pages o' ho'
  · show Function.update a.ownerObjects o.toNat (a.ownerObjects o.toNat + (2 ^ k - 1))
      o'.toNat = _
    rw [hheads o']
    by_cases hoo : o' = o
    · subst hoo
      have hdisj : Disjoint (ownedHeads a o') ((Finset.Ico h (h + 2 ^ k)).erase h) := by
        rw [Finset.disjoint_right]
        intro p hp hm
        rw [Finset.mem_erase, Finset.mem_Ico] at hp
        simp only [ownedHeads, Finset.mem_filter] at hm
        rw [hb.interior p (mem_block.mpr hp.2) hp.1] at hm
        exact absurd hm.2.1 (by decide)
      rw [Function.update_self, if_pos rfl, hl.owner_objects o' ho',
        Finset.card_union_of_disjoint hdisj, Finset.card_erase_of_mem (by simp), Nat.card_Ico,
        Nat.add_sub_cancel_left]
    · rw [Function.update_of_ne (fun e => hoo (UInt8.toNat_inj.mp e)), if_neg hoo,
        hl.owner_objects o' ho']

/-- `split_allocated_block_to_order0` of an address that heads no live block refuses it
and changes nothing. -/
theorem splitAllocatedBlockToOrder0_of_not_live (hl : WellFormed a)
    (hno : ∀ h k o, ptr = pageToPtr a.base h → ¬ AllocBlock a h k o) :
    splitAllocatedBlockToOrder0 a ptr = (false, a) := by
  by_cases hz : (ptr == 0 || !ptrInZone a ptr) = true
  · rw [splitAllocatedBlockToOrder0, if_pos hz]
  obtain ⟨hp, ht⟩ := page_of_zoneAddr hl hz
  have hf : (a.pageFlags (ptrToPage a.base ptr) &&& 0xC0 != flagAllocHead) = true := by
    rw [bne_iff_ne]
    intro hf
    obtain ⟨o, hb, -⟩ := hl.head_alloc ht (Set.notMem_empty _) hf
    exact hno _ _ o hp hb
  simp only [splitAllocatedBlockToOrder0, hz, Nat.not_le.mpr ht, hf, if_true, if_false,
    Bool.false_eq_true]

/-- **`split_allocated_block_to_order0` keeps the layout and the counters** and changes
nothing a client sees: the live block at `ptr` becomes live order-0 blocks of its owner,
and any other address is refused. -/
theorem splitAllocatedBlockToOrder0_spec (hl : WellFormed a) (hc : Counted a) (ptr : Nat) :
    WellFormed (splitAllocatedBlockToOrder0 a ptr).2 ∧
      Counted (splitAllocatedBlockToOrder0 a ptr).2 ∧
      pageState (splitAllocatedBlockToOrder0 a ptr).2 = pageState a := by
  by_cases hlive : ∃ h k o, ptr = pageToPtr a.base h ∧ AllocBlock a h k o
  · obtain ⟨h, k, o, rfl, hb⟩ := hlive
    rw [splitAllocatedBlockToOrder0_of_allocBlock hl hb]
    split_ifs
    · exact ⟨hl, hc, rfl⟩
    · obtain ⟨hl', -, hps⟩ := Layout.splitToOrder0 hl hb
      refine ⟨hl', ⟨?_, ?_⟩, hps⟩ <;> rw [hps]
      · exact hc.free_count
      · exact hc.cached_count
  · rw [splitAllocatedBlockToOrder0_of_not_live hl fun h k o hp hb => hlive ⟨h, k, o, hp, hb⟩]
    exact ⟨hl, hc, rfl⟩

/-- **`split_allocated_block_to_order0` needs no `MAX_ORDER` check**: it makes none, unlike
`mark_allocated_block_kind` and `reassign_allocated_block_owner`, yet on a well-formed
allocator it accepts exactly the addresses their checks accept, the heads of live blocks. -/
theorem splitAllocatedBlockToOrder0_accepts (hl : WellFormed a) (ptr : Nat) :
    (splitAllocatedBlockToOrder0 a ptr).1 = (allocatedBlockAt a ptr).isSome := by
  by_cases hlive : ∃ h k o, ptr = pageToPtr a.base h ∧ AllocBlock a h k o
  · obtain ⟨h, k, o, rfl, hb⟩ := hlive
    rw [splitAllocatedBlockToOrder0_of_allocBlock hl hb, allocatedBlockAt_of_allocBlock hl hb]
    split_ifs <;> rfl
  · have hno : ∀ h k o, ptr = pageToPtr a.base h → ¬ AllocBlock a h k o :=
      fun h k o hp hb => hlive ⟨h, k, o, hp, hb⟩
    rw [splitAllocatedBlockToOrder0_of_not_live hl hno, allocatedBlockAt_of_not_live hl hno]
    rfl

/-- `splitAllocatedBlockToOrder0_accepts` after `alloc` of one page on a zone of 16 pages
fresh from `init`, at the address `alloc` returned, which heads a live block. -/
theorem splitAllocatedBlockToOrder0_accepts_after_alloc :
    ∃ a h a', init 0 16 1 (fun _ => 0) = .ok a ∧ alloc a 4096 1 = .ok (pageToPtr a.base h, a') ∧
      WellFormed a' ∧ (allocatedBlockAt a' (pageToPtr a'.base h)).isSome = true ∧
      (splitAllocatedBlockToOrder0 a' (pageToPtr a'.base h)).1 =
        (allocatedBlockAt a' (pageToPtr a'.base h)).isSome := by
  obtain ⟨a, h, a', hinit, -, hres, -, hA, -⟩ := alloc_one_page_at_init
  refine ⟨a, h, a', hinit, hres, hA.wf, ?_, splitAllocatedBlockToOrder0_accepts hA.wf _⟩
  rw [allocatedBlockAt_of_allocBlock hA.wf hA.allocBlock]
  rfl

end Split

/-! ## `reassign_allocated_block_owner` -/

section Reassign

variable {ptr h k : Nat} {o owner : UInt8}

theorem allocPages_self {m : Nat → PageState} (hown : ∀ p ∈ block h k, m p = .allocated o) :
    allocPages m h k o = m := by
  funext p
  by_cases hp : p ∈ block h k
  · rw [allocPages_of_mem hp, hown p hp]
  · rw [allocPages_of_not_mem hp]

theorem allocPages_freePages (m : Nat → PageState) (h k : Nat) (owner : UInt8) :
    allocPages (freePages m h k) h k owner = allocPages m h k owner := by
  funext p
  by_cases hp : p ∈ block h k
  · rw [allocPages_of_mem hp, allocPages_of_mem hp]
  · rw [allocPages_of_not_mem hp, allocPages_of_not_mem hp, freePages_of_not_mem hp]

/-- A counter after `account_owner_free` takes `n` from `o` and `account_owner_alloc` adds
`n` for `owner`. -/
theorem update_update_sub_add (m : Nat → Nat) (n : Nat) (x : UInt8) :
    Function.update (Function.update m o.toNat (m o.toNat - n)) owner.toNat
        (Function.update m o.toNat (m o.toNat - n) owner.toNat + n) x.toNat =
      m x.toNat - (if x = o then n else 0) + (if x = owner then n else 0) := by
  simp only [Function.update_apply, UInt8.toNat_inj]
  by_cases hxo : x = owner
  · subst hxo
    by_cases hxo' : x = o
    · subst hxo'
      simp
    · simp [hxo']
  · by_cases hxo' : x = o
    · subst hxo'
      simp [hxo]
    · simp [hxo, hxo']

/-- **Reassigning a live block keeps the layout**: its pages, and its one object, move from
`o`'s counters to `owner`'s, which the layout keeps large enough for `o` to give them back;
a client sees the block allocated to `owner`. -/
theorem Layout.reassign (hl : Layout a ∅) (hb : AllocBlock a h k o)
    (hown : physicalPageOwnerIsValid owner = true) :
    ∃ a', (do
        let a ← accountOwnerFree a o (2 ^ k) 1
        let a ← accountOwnerAlloc a owner (2 ^ k) 1
        pure (true, { a with pageOwners := fillRange a.pageOwners h (2 ^ k) owner })) =
          .ok (true, a') ∧
      Layout a' ∅ ∧ AllocBlock a' h k owner ∧
      pageState a' = allocPages (pageState a) h k owner ∧ counts a' = counts a ∧
      a'.base = a.base := by
  have hacc₁ := accountOwnerFree_of_ownedSpan hl hb.ownedSpan
  rw [hb.spanHeads_eq, Finset.card_singleton] at hacc₁
  set a₁ : PageAllocator := { a with
    ownerPages := Function.update a.ownerPages o.toNat (a.ownerPages o.toNat - 2 ^ k)
    ownerObjects := Function.update a.ownerObjects o.toNat (a.ownerObjects o.toNat - 1) }
  set a₂ : PageAllocator := { a₁ with
    ownerPages := Function.update a₁.ownerPages owner.toNat (a₁.ownerPages owner.toNat + 2 ^ k)
    ownerObjects :=
      Function.update a₁.ownerObjects owner.toNat (a₁.ownerObjects owner.toNat + 1) }
  have hacc₂ : accountOwnerAlloc a₁ owner (2 ^ k) 1 = .ok a₂ := if_pos hown
  set a₃ : PageAllocator := { a₂ with pageOwners := fillRange a₂.pageOwners h (2 ^ k) owner }
  have hout : ∀ p ∉ block h k, ¬ (h ≤ p ∧ p < h + 2 ^ k) := fun p hp h' => hp (mem_block.mpr h')
  have hag : Agree a a₃ (block h k)ᶜ :=
    ⟨rfl, rfl, fun _ _ => rfl, fun _ _ => rfl,
      fun p hp => by simp only [a₃, fillRange_apply, if_neg (hout p hp)]; rfl, fun _ _ => rfl⟩
  have hab : AllocBlock a₃ h k owner :=
    { toInZone := hb.toInZone.congr hag
      head := hb.head
      interior := hb.interior
      owner := fun p hp => fillRange_of_mem (mem_block.mp hp).1 (mem_block.mp hp).2
      owner_valid := hown }
  have hps : pageState a₃ = allocPages (pageState a) h k owner := by
    funext p
    by_cases hp : p ∈ block h k
    · rw [allocPages_of_mem hp]
      exact hab.pageState_eq hp
    · rw [allocPages_of_not_mem hp]
      exact pageState_congr (hag.flags p hp) (hag.owners p hp)
  have hhead : ∀ x, h ∈ ownedHeads a x ↔ x = o := fun x => by
    simp only [ownedHeads, Finset.mem_filter, Finset.mem_range, hb.head,
      allocHeadFlag_and (order_lt_32 hb.order_le), true_and,
      (allocated_of_pageState (hb.pageState_eq (head_mem_block h k))).2]
    exact ⟨fun e => e.2.symm, fun e => ⟨by have := Nat.one_le_two_pow (n := k); have := hb.fits; omega, e.symm⟩⟩
  have hheads : ∀ x, ownedHeads a₃ x =
      if x = owner then insert h ((ownedHeads a x).erase h) else (ownedHeads a x).erase h := by
    intro x
    ext p
    by_cases hp : p ∈ block h k
    · by_cases hph : p = h
      · subst hph
        have hnew : p ∈ ownedHeads a₃ x ↔ x = owner := by
          rw [← (allocated_of_pageState (hab.pageState_eq hp)).2]
          simp only [ownedHeads, Finset.mem_filter, Finset.mem_range, hab.head,
            allocHeadFlag_and (order_lt_32 hb.order_le), true_and]
          exact ⟨fun e => e.2.symm, fun e => ⟨(Finset.mem_range.mp
            (Finset.mem_filter.mp ((hhead o).mpr rfl)).1), e.symm⟩⟩
        rw [hnew]
        split_ifs with hx
        · simp only [hx, Finset.mem_insert, true_or]
        · simp only [hx, Finset.mem_erase, ne_eq, not_true_eq_false, false_and]
      · have hcont : ¬ a.pageFlags p &&& 0xC0 = flagAllocHead := by
          rw [hb.interior p hp hph]
          decide
        have hnot : ∀ y, p ∉ ownedHeads a y := fun y hm =>
          hcont (Finset.mem_filter.mp hm).2.1
        have hnot₃ : p ∉ ownedHeads a₃ x := fun hm => hcont (Finset.mem_filter.mp hm).2.1
        split_ifs <;> simp only [hnot₃, Finset.mem_insert, Finset.mem_erase, hph, hnot x,
          false_or, and_false]
    · have hph : p ≠ h := fun he => hp (he ▸ head_mem_block h k)
      have hm : p ∈ ownedHeads a₃ x ↔ p ∈ ownedHeads a x := by
        simp only [ownedHeads, Finset.mem_filter, Finset.mem_range, hag.owners p hp]
        rfl
      split_ifs <;> simp only [hm, Finset.mem_insert, Finset.mem_erase, hph, ne_eq,
        not_false_eq_true, true_and, false_or]
  refine ⟨a₃, by simp only [hacc₁, hacc₂, ok_bind, pure_eq_ok]; rfl,
    ⟨hl.toZoneShape.congr hag rfl fun p hp => hb.above_meta.trans (mem_block.mp hp).1,
      fun p hm ht _ => ?_, hl.nodup, hl.listed, fun x hx => ?_, fun x hx => ?_⟩,
    hab, hps, rfl, rfl⟩
  · by_cases hp : p ∈ block h k
    · exact .alloc hab (Set.disjoint_empty _) hp
    · exact (hl.placed p hm ht (Set.notMem_empty p)).transfer hag hp fun _ _ hB _ hpB =>
        ⟨hB.disjoint_of_not_mem hb.blk hpB hp, Set.disjoint_empty _⟩
  · have hcard₁ := card_ownedIn_freePages (m := pageState a) x hb.fits
      fun p hp => hb.pageState_eq hp
    have hcard₂ : (ownedIn a.totalPages (allocPages (freePages (pageState a) h k) h k owner)
        x).card = (ownedIn a.totalPages (freePages (pageState a) h k) x).card +
          if x = owner then 2 ^ k else 0 :=
      card_ownedIn_allocPages x hb.fits fun p hp => freePages_of_mem hp
    show Function.update a₁.ownerPages owner.toNat (a₁.ownerPages owner.toNat + 2 ^ k)
      x.toNat = _
    rw [update_update_sub_add, hps, ← allocPages_freePages, hcard₂, hl.owner_pages x hx, ← hcard₁,
      Nat.add_sub_cancel]
  · have herase : ((ownedHeads a x).erase h).card =
        (ownedHeads a x).card - (if x = o then 1 else 0) := by
      by_cases hxo : x = o
      · rw [if_pos hxo]
        exact Finset.card_erase_of_mem ((hhead x).mpr hxo)
      · rw [if_neg hxo, Finset.erase_eq_of_notMem fun hm => hxo ((hhead x).mp hm), Nat.sub_zero]
    have hcard : (ownedHeads a₃ x).card =
        (ownedHeads a x).card - (if x = o then 1 else 0) + (if x = owner then 1 else 0) := by
      rw [hheads x, ← herase]
      by_cases hx : x = owner
      · simp only [if_pos hx]
        exact Finset.card_insert_of_notMem (Finset.notMem_erase h _)
      · simp only [if_neg hx, Nat.add_zero]
    show Function.update a₁.ownerObjects owner.toNat (a₁.ownerObjects owner.toNat + 1)
      x.toNat = _
    rw [update_update_sub_add, hl.owner_objects x hx, hcard]

/-- Handing allocated pages to another owner moves no page into or out of either
counter's pages. -/
theorem Counted.reowned {a' : PageAllocator} (hc : Counted a) (hcnt : counts a' = counts a)
    (hps : pageState a' = allocPages (pageState a) h k owner)
    (hown : ∀ p ∈ block h k, pageState a p = .allocated o) : Counted a' := by
  simp only [counts, Prod.mk.injEq] at hcnt
  obtain ⟨ht, hf, hcc⟩ := hcnt
  have hsame : ∀ p, (pageState a' p = .free ∨ pageState a' p = .cached ↔
      pageState a p = .free ∨ pageState a p = .cached) ∧
      (pageState a' p = .cached ↔ pageState a p = .cached) := fun p => by
    rw [hps]
    by_cases hp : p ∈ block h k
    · simp only [allocPages_of_mem hp, hown p hp, reduceCtorEq, or_self, and_self]
    · simp only [allocPages_of_not_mem hp, and_self]
  refine ⟨?_, ?_⟩
  · rw [hf, ht, hc.free_count]
    exact congrArg Finset.card (Finset.filter_congr fun p _ => (hsame p).1.symm)
  · rw [hcc, ht, hc.cached_count]
    exact congrArg Finset.card (Finset.filter_congr fun p _ => (hsame p).2.symm)

/-- **`reassign_allocated_block_owner` hands a live block to a valid owner**: on a
well-formed allocator with exact counters, the block at `ptr`, all of one owner, passes the
checks, its owner's counters give back exactly what they hold for it, and a client sees it
allocated to `owner`, with the layout and the counters exact. -/
theorem reassignAllocatedBlockOwner_of_allocBlock (hl : WellFormed a) (hc : Counted a)
    (hb : AllocBlock a h k o) (hown : physicalPageOwnerIsValid owner = true) :
    ∃ a', reassignAllocatedBlockOwner a (pageToPtr a.base h) owner = .ok (true, a') ∧
      WellFormed a' ∧ Counted a' ∧ AllocBlock a' h k owner ∧
      pageState a' = allocPages (pageState a) h k owner ∧ a'.base = a.base := by
  have hload : ∀ p ∈ block h k, loadPageOwner (a.pageOwners p) = o := fun p hp =>
    (allocated_of_pageState (hb.pageState_eq hp)).2
  have hall : ((List.range (2 ^ k)).all fun i =>
      loadPageOwner (a.pageOwners (h + i)) == o) = true := by
    rw [all_range_iff (fun p => loadPageOwner (a.pageOwners p) == o)]
    intro p hp
    rw [hload p hp]
    exact beq_self_eq_true o
  have hcount : (List.range (2 ^ k)).countP
      (fun i => a.pageFlags (h + i) &&& 0xC0 == flagAllocHead) = 1 := by
    rw [countP_allocHead_eq_card, hb.spanHeads_eq, Finset.card_singleton]
  rw [reassignAllocatedBlockOwner, if_neg (by rw [hown]; decide),
    allocatedBlockAt_of_allocBlock hl hb]
  simp only [hall, Bool.not_true, Bool.false_eq_true, if_false, hcount,
    hload h (head_mem_block h k)]
  by_cases hoo : o = owner
  · -- the block's owner already: nothing changes
    subst hoo
    rw [if_pos (beq_self_eq_true o)]
    exact ⟨a, rfl, hl, hc, hb, (allocPages_self fun p hp => hb.pageState_eq hp).symm, rfl⟩
  · rw [if_neg (by rw [beq_iff_eq]; exact hoo)]
    obtain ⟨a', hres, hl', hb', hps, hcnt, hbase⟩ := Layout.reassign hl hb hown
    exact ⟨a', hres, hl', hc.reowned hcnt hps fun p hp => hb.pageState_eq hp, hb', hps, hbase⟩

/-- `reassign_allocated_block_owner` on a well-formed allocator with exact counters: it
refuses what heads no live block all of one owner, or hands that block to a valid owner,
keeping the layout and the counters exact; it never panics. -/
theorem reassignAllocatedBlockOwner_spec (hl : WellFormed a) (hc : Counted a) (ptr : Nat)
    (owner : UInt8) :
    reassignAllocatedBlockOwner a ptr owner = .ok (false, a) ∨
      ∃ h k o a', AllocBlock a h k o ∧ physicalPageOwnerIsValid owner = true ∧
        reassignAllocatedBlockOwner a ptr owner = .ok (true, a') ∧ WellFormed a' ∧
        Counted a' ∧ pageState a' = allocPages (pageState a) h k owner := by
  by_cases hown : physicalPageOwnerIsValid owner = true
  · by_cases hlive : ∃ h k o, ptr = pageToPtr a.base h ∧ AllocBlock a h k o
    · obtain ⟨h, k, o, rfl, hb⟩ := hlive
      obtain ⟨a', hres, hl', hc', -, hps, -⟩ :=
        reassignAllocatedBlockOwner_of_allocBlock hl hc hb hown
      exact .inr ⟨h, k, o, a', hb, hown, hres, hl', hc', hps⟩
    · refine .inl ?_
      rw [reassignAllocatedBlockOwner, if_neg (by rw [hown]; decide),
        allocatedBlockAt_of_not_live hl fun h k o hp hb => hlive ⟨h, k, o, hp, hb⟩]
  · refine .inl ?_
    rw [reassignAllocatedBlockOwner, if_pos (by simpa using hown)]

end Reassign

end Wos.PageAlloc
