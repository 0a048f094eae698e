import WosKernel.PageAllocOps

/-! # `free` keeps the layout and refines the page-set model

`free_allocated_block` works in three stages, each a step lemma between layouts with
holes:

* `Layout.clearSpan`: the owner release and the clearing loop set the pages aside, every
  one a free interior.  They are an `OwnedSpan`: pages of one owner whose blocks lie among
  them, a live block for `free` or an aligned run of order-0 pages for
  `free_order0_range_at`;
* `Layout.merge`: one round of the coalescing loop unlinks the free buddy and merges it
  into the set-aside block, which doubles;
* `Layout.insertHead`: the final head flag and `insert_free_block` make the set-aside
  block a free block on its list.

The later stages change flags of free pages only (`FreeFrame`).  `free` itself only checks
that the pointer heads a live block that may be freed; every pointer it refuses leaves the
allocator as it was.
-/

namespace Wos.PageAlloc

open Buddy

variable {a : PageAllocator}

/-! ## Releasing and clearing the block -/

section Clear

variable {h k p : Nat} {o : UInt8}

@[simp] theorem loadPageOwner_ownerInvalid : loadPageOwner ownerInvalid = ownerInvalid := by
  decide

theorem clearAllocatedBlock_of_mem {a : PageAllocator} (hp : p ∈ block h k) :
    (clearAllocatedBlock a h (2 ^ k)).pageFlags p = flagFreeInterior ∧
      PageFree (clearAllocatedBlock a h (2 ^ k)) p := by
  have hp' := mem_block.mp hp
  refine ⟨?_, ⟨?_, ?_, ?_⟩⟩ <;>
    simp only [clearAllocatedBlock, fillRange_apply, if_pos hp', loadPageOwner_ownerInvalid]

theorem clearAllocatedBlock_agree (a : PageAllocator) (h k : Nat) :
    Agree a (clearAllocatedBlock a h (2 ^ k)) (block h k)ᶜ := by
  have hout : ∀ p ∈ (block h k)ᶜ, ¬ (h ≤ p ∧ p < h + 2 ^ k) := fun _ hp hp' =>
    hp (mem_block.mpr hp')
  refine ⟨rfl, rfl, ?_, ?_, ?_, ?_⟩ <;> intro p hp <;>
    simp only [clearAllocatedBlock, fillRange_apply, if_neg (hout p hp)]

/-- The pages of the block of order `k` at `h` are all allocated to `o`, and every block of
the layout that holds one of them lies inside the span: what one call of
`free_allocated_block` frees, a live block or an aligned run of `o`'s order-0 pages. -/
structure OwnedSpan (a : PageAllocator) (h k : Nat) (o : UInt8) : Prop extends InZone a h k where
  owner_valid : physicalPageOwnerIsValid o = true
  allocated : ∀ p ∈ block h k, pageState a p = .allocated o
  cover : ∀ p ∈ block h k, ∀ H K, Blk a H K → p ∈ block H K → block H K ⊆ block h k

/-- The allocated heads among the pages of the block of order `k` at `h`. -/
def spanHeads (a : PageAllocator) (h k : Nat) : Finset Nat :=
  (Finset.Ico h (h + 2 ^ k)).filter fun p => a.pageFlags p &&& 0xC0 = flagAllocHead

/-- The count of `free_allocated_block`'s owner release is the number of the span's
allocated heads. -/
theorem countP_allocHead_eq_card (a : PageAllocator) (h k : Nat) :
    (List.range (2 ^ k)).countP (fun i => a.pageFlags (h + i) &&& 0xC0 == flagAllocHead) =
      (spanHeads a h k).card := by
  rw [countP_range_add (fun p => a.pageFlags p &&& 0xC0 == flagAllocHead), spanHeads]
  simp only [beq_iff_eq]

theorem OwnedSpan.spanHeads_subset (hsp : OwnedSpan a h k o) : spanHeads a h k ⊆ ownedHeads a o := by
  intro p hp
  rw [spanHeads, Finset.mem_filter, Finset.mem_Ico] at hp
  simp only [ownedHeads, Finset.mem_filter, Finset.mem_range]
  exact ⟨by have := hsp.fits; omega, hp.2, (allocated_of_pageState (hsp.allocated p (mem_block.mpr hp.1))).2⟩

/-- The blocks that hold a page outside an owned span avoid it. -/
theorem OwnedSpan.disjoint (hsp : OwnedSpan a h k o) {H K : Nat} (hB : Blk a H K)
    (hpB : p ∈ block H K) (hp : p ∉ block h k) : Disjoint (block H K) (block h k) :=
  Set.disjoint_left.mpr fun q hqB hq => hp (hsp.cover q hq H K hB hqB hpB)

/-- A live block is an owned span, whose one allocated head is its head. -/
theorem AllocBlock.ownedSpan (hb : AllocBlock a h k o) : OwnedSpan a h k o :=
  { toInZone := hb.toInZone
    owner_valid := hb.owner_valid
    allocated := fun _ hp => hb.pageState_eq hp
    cover := fun p hp H K hB hpB => by
      rcases hB.eq_or_disjoint hb.blk with ⟨rfl, rfl⟩ | hd
      · exact Set.Subset.rfl
      · exact absurd hp (Set.disjoint_left.mp hd hpB) }

theorem AllocBlock.spanHeads_eq (hb : AllocBlock a h k o) : spanHeads a h k = {h} := by
  ext p
  rw [spanHeads, Finset.mem_filter, Finset.mem_Ico, Finset.mem_singleton, ← mem_block]
  constructor
  · rintro ⟨hp, hf⟩
    by_contra hne
    rw [hb.interior p hp hne] at hf
    exact absurd hf (by decide)
  · rintro rfl
    exact ⟨head_mem_block p k, by rw [hb.head, allocHeadFlag_and (order_lt_32 hb.order_le)]⟩

/-- The owner release of `free_allocated_block` on an owned span is `o`'s release of the
span's pages and of one object per allocated head among them. -/
theorem releaseBlockOwner_of_ownedSpan (hsp : OwnedSpan a h k o) :
    releaseBlockOwner a h (2 ^ k) = accountOwnerFree a o (2 ^ k) (spanHeads a h k).card := by
  have hload : ∀ p ∈ block h k, loadPageOwner (a.pageOwners p) = o := fun p hp =>
    (allocated_of_pageState (hsp.allocated p hp)).2
  have hall : ((List.range (2 ^ k)).all fun i =>
      loadPageOwner (a.pageOwners (h + i)) == loadPageOwner (a.pageOwners h)) = true := by
    rw [all_range_iff (fun p => loadPageOwner (a.pageOwners p) == loadPageOwner (a.pageOwners h))]
    intro p hp
    rw [hload p hp, hload h (head_mem_block h k)]
    exact beq_self_eq_true o
  rw [releaseBlockOwner, if_pos hall, countP_allocHead_eq_card, hload h (head_mem_block h k)]

/-- The owner release of `free_allocated_block` on a live block of `o` is `o`'s release
of the block's pages and its one object. -/
theorem releaseBlockOwner_eq (hb : AllocBlock a h k o) :
    releaseBlockOwner a h (2 ^ k) = accountOwnerFree a o (2 ^ k) 1 := by
  rw [releaseBlockOwner_of_ownedSpan hb.ownedSpan, hb.spanHeads_eq, Finset.card_singleton]

/-- `o`'s release of an owned span: its pages and its heads come off `o`'s counters,
which the layout keeps large enough. -/
theorem accountOwnerFree_of_ownedSpan (hl : Layout a ∅) (hsp : OwnedSpan a h k o) :
    accountOwnerFree a o (2 ^ k) (spanHeads a h k).card = .ok { a with
      ownerPages := Function.update a.ownerPages o.toNat (a.ownerPages o.toNat - 2 ^ k)
      ownerObjects := Function.update a.ownerObjects o.toNat
        (a.ownerObjects o.toNat - (spanHeads a h k).card) } := by
  have hpages : 2 ^ k ≤ a.ownerPages o.toNat := by
    rw [hl.owner_pages o hsp.owner_valid, ← card_ownedIn_freePages o hsp.fits hsp.allocated,
      if_pos rfl]
    exact Nat.le_add_left _ _
  have hobj : (spanHeads a h k).card ≤ a.ownerObjects o.toNat := by
    rw [hl.owner_objects o hsp.owner_valid]
    exact Finset.card_le_card hsp.spanHeads_subset
  have hcheck : (!physicalPageOwnerIsValid o || decide (a.ownerPages o.toNat < 2 ^ k) ||
      decide (a.ownerObjects o.toNat < (spanHeads a h k).card)) = false := by
    simp only [hsp.owner_valid, Bool.not_true, Bool.false_or, Bool.or_eq_false_iff,
      decide_eq_false_iff_not, not_lt]
    exact ⟨hpages, hobj⟩
  rw [accountOwnerFree, if_neg (by rw [hcheck]; decide)]

/-- **The owner release and the clearing loop of `free_allocated_block`** set an owned span
aside, every page of it a free interior: a client sees exactly its pages become free. -/
theorem Layout.clearSpan (hl : Layout a ∅) (hsp : OwnedSpan a h k o) :
    ∃ a₁, releaseBlockOwner a h (2 ^ k) = .ok a₁ ∧
      Layout (clearAllocatedBlock a₁ h (2 ^ k)) (block h k) ∧
      FreeSpan (clearAllocatedBlock a₁ h (2 ^ k)) h k ∧
      (clearAllocatedBlock a₁ h (2 ^ k)).pageFlags h = flagFreeInterior ∧
      pageState (clearAllocatedBlock a₁ h (2 ^ k)) = freePages (pageState a) h k ∧
      (clearAllocatedBlock a₁ h (2 ^ k)).base = a.base ∧
      (clearAllocatedBlock a₁ h (2 ^ k)).pageKinds = fillRange a.pageKinds h (2 ^ k) .free ∧
      (clearAllocatedBlock a₁ h (2 ^ k)).pageRefcounts = fillRange a.pageRefcounts h (2 ^ k) 0 ∧
      counts (clearAllocatedBlock a₁ h (2 ^ k)) = counts a ∧
      Agree a (clearAllocatedBlock a₁ h (2 ^ k)) (block h k)ᶜ := by
  refine ⟨_, (releaseBlockOwner_of_ownedSpan hsp).trans (accountOwnerFree_of_ownedSpan hl hsp), ?_⟩
  set a₁ : PageAllocator := { a with
    ownerPages := Function.update a.ownerPages o.toNat (a.ownerPages o.toNat - 2 ^ k)
    ownerObjects := Function.update a.ownerObjects o.toNat
      (a.ownerObjects o.toNat - (spanHeads a h k).card) }
  set a₂ := clearAllocatedBlock a₁ h (2 ^ k)
  have hag : Agree a a₂ (block h k)ᶜ :=
    let hc := clearAllocatedBlock_agree a₁ h k
    ⟨hc.meta_eq, hc.total_eq, hc.flags, hc.kinds, hc.owners, hc.refcounts⟩
  have hin : ∀ p ∈ block h k, a₂.pageFlags p = flagFreeInterior ∧ PageFree a₂ p :=
    fun _ hp => clearAllocatedBlock_of_mem hp
  have hps : pageState a₂ = freePages (pageState a) h k := by
    funext p
    by_cases hp : p ∈ block h k
    · rw [freePages_of_mem hp]
      exact pageState_of_interior (hin p hp).1
    · rw [freePages_of_not_mem hp]
      exact pageState_congr (hag.flags p hp) (hag.owners p hp)
  have hheads : ∀ o', ownedHeads a₂ o' =
      if o' = o then ownedHeads a o \ spanHeads a h k else ownedHeads a o' := by
    intro o'
    ext p
    by_cases hp : p ∈ block h k
    · have hnew : p ∉ ownedHeads a₂ o' := by
        intro hm
        simp only [ownedHeads, Finset.mem_filter, (hin p hp).1] at hm
        exact absurd hm.2.1 (by decide)
      rw [iff_false_intro hnew, false_iff]
      split_ifs with ho
      · rw [Finset.mem_sdiff, not_and, not_not]
        intro hm
        rw [spanHeads, Finset.mem_filter, Finset.mem_Ico]
        exact ⟨mem_block.mp hp, (Finset.mem_filter.mp hm).2.1⟩
      · intro hm
        exact ho ((Finset.mem_filter.mp hm).2.2.symm.trans
          (allocated_of_pageState (hsp.allocated p hp)).2)
    · have hm : p ∈ ownedHeads a₂ o' ↔ p ∈ ownedHeads a o' := by
        simp only [ownedHeads, Finset.mem_filter, Finset.mem_range, hag.flags p hp,
          hag.owners p hp]
        rfl
      split_ifs with ho
      · subst ho
        rw [hm, Finset.mem_sdiff, iff_self_and]
        intro _ hs
        rw [spanHeads, Finset.mem_filter, Finset.mem_Ico] at hs
        exact hp (mem_block.mpr hs.1)
      · exact hm
  refine ⟨⟨hl.toZoneShape.congr hag rfl fun p hp => hsp.above_meta.trans (mem_block.mp hp).1,
    ?_, hl.nodup, ?_, ?_, ?_⟩, ⟨hsp.toInZone.congr hag, fun p hp _ => (hin p hp).1,
    fun p hp => (hin p hp).2⟩, (hin h (head_mem_block h k)).1, hps, rfl, rfl, rfl, rfl, hag⟩
  · intro p hm ht hp
    exact (hl.placed p hm ht (Set.notMem_empty p)).transfer hag hp fun _ _ hB _ hpB =>
      ⟨hsp.disjoint hB hpB hp, hsp.disjoint hB hpB hp⟩
  · intro j hj ptr
    show ptr ∈ a.freeList j ↔ _
    rw [hl.listed j hj ptr]
    constructor
    · rintro ⟨x, rfl, -, hm, ht, hf⟩
      have hx : x ∉ block h k := fun hx => by
        have hfree := pageState_of_freeHeadFlag (order_lt_32 hj) hf
        rw [hsp.allocated x hx] at hfree
        exact PageState.noConfusion hfree
      exact ⟨x, rfl, hx, hm, ht, (hag.flags x hx).trans hf⟩
    · rintro ⟨x, rfl, hx, hm, ht, hf⟩
      exact ⟨x, rfl, Set.notMem_empty x, hm, ht, (hag.flags x hx).symm.trans hf⟩
  · intro o' ho'
    show Function.update a.ownerPages o.toNat (a.ownerPages o.toNat - 2 ^ k) o'.toNat =
      (ownedIn a.totalPages (pageState a₂) o').card
    have hcard := card_ownedIn_freePages o' hsp.fits hsp.allocated
    rw [hps]
    by_cases hoo : o' = o
    · subst hoo
      rw [Function.update_self, hl.owner_pages o' ho', ← hcard, if_pos rfl, Nat.add_sub_cancel]
    · rw [Function.update_of_ne (fun e => hoo (UInt8.toNat_inj.mp e)), hl.owner_pages o' ho',
        ← hcard, if_neg hoo, Nat.add_zero]
  · intro o' ho'
    show Function.update a.ownerObjects o.toNat
      (a.ownerObjects o.toNat - (spanHeads a h k).card) o'.toNat = _
    rw [hheads o']
    by_cases hoo : o' = o
    · subst hoo
      rw [Function.update_self, if_pos rfl, hl.owner_objects o' ho',
        Finset.card_sdiff_of_subset hsp.spanHeads_subset]
    · rw [Function.update_of_ne (fun e => hoo (UInt8.toNat_inj.mp e)), if_neg hoo,
        hl.owner_objects o' ho']

end Clear

/-! ## Coalescing -/

/-- `a'` keeps `a`'s owners, and its flag bytes at every page not flagged free: the stages
after the clearing change flags at free pages only. -/
structure FreeFrame (a a' : PageAllocator) : Prop where
  owners : a'.pageOwners = a.pageOwners
  flags : ∀ p, ¬ FreeFlag (a.pageFlags p) → a'.pageFlags p = a.pageFlags p

theorem FreeFrame.refl (a : PageAllocator) : FreeFrame a a := ⟨rfl, fun _ _ => rfl⟩

theorem FreeFrame.trans {a₁ a₂ : PageAllocator} (h₁ : FreeFrame a a₁) (h₂ : FreeFrame a₁ a₂) :
    FreeFrame a a₂ :=
  ⟨h₂.owners.trans h₁.owners, fun p hp => (h₂.flags p (by rw [h₁.flags p hp]; exact hp)).trans
    (h₁.flags p hp)⟩

section Merge

variable {H k : Nat}

/-- A free head outside the set-aside block is listed, and not in the metadata pages. -/
theorem Layout.buddy_free (hl : Layout a (block H k)) (hk : k ≤ maxOrder)
    (hbnot : b ∉ block H k) (hbt : b < a.totalPages) (hbf : a.pageFlags b = freeHeadFlag k) :
    FreeBlock a b k ∧ pageToPtr a.base b ∈ a.freeList k := by
  have hbm : a.metadataPages ≤ b := by
    by_contra hlt
    rw [hl.reserved b (by omega)] at hbf
    exact freeHeadFlag_ne_reserved (order_lt_32 hk) hbf.symm
  exact ⟨(hl.head_free hbm hbt hbnot hk hbf).1,
    (hl.listed k hk _).mpr ⟨b, rfl, hbnot, hbm, hbt, hbf⟩⟩

/-- **One round of the coalescing loop**: the buddy of the set-aside block is a free head
of the same order, so it unlinks, and the two make up the set-aside block of the next
order, every page of it a free interior. -/
theorem Layout.merge (hl : Layout a (block H k)) (hs : FreeSpan a H k)
    (hH : a.pageFlags H = flagFreeInterior) (hk : k < maxOrder)
    (hbt : H ^^^ 2 ^ k < a.totalPages) (hbf : a.pageFlags (H ^^^ 2 ^ k) = freeHeadFlag k) :
    ∃ a₁, removeFreeBlockWithRepair a k (pageToPtr a.base (H ^^^ 2 ^ k)) = .ok (true, a₁) ∧
      Layout (a₁.setFlag (H ^^^ 2 ^ k) flagFreeInterior) (block (min (H ^^^ 2 ^ k) H) (k + 1)) ∧
      FreeSpan (a₁.setFlag (H ^^^ 2 ^ k) flagFreeInterior) (min (H ^^^ 2 ^ k) H) (k + 1) ∧
      (a₁.setFlag (H ^^^ 2 ^ k) flagFreeInterior).pageFlags (min (H ^^^ 2 ^ k) H) =
        flagFreeInterior ∧
      pageState (a₁.setFlag (H ^^^ 2 ^ k) flagFreeInterior) = pageState a ∧ a₁.base = a.base ∧
      a₁.pageKinds = a.pageKinds ∧ a₁.pageRefcounts = a.pageRefcounts ∧ counts a₁ = counts a ∧
      FreeFrame a (a₁.setFlag (H ^^^ 2 ^ k) flagFreeInterior) := by
  set b := H ^^^ 2 ^ k with hbdef
  have hk' : k ≤ maxOrder := hk.le
  have hdisj : Disjoint (block H k) (block b k) := disjoint_buddy hs.aligned
  have hbnot : b ∉ block H k := Set.disjoint_right.mp hdisj (head_mem_block b k)
  obtain ⟨hfb, hmem⟩ := hl.buddy_free hk' hbnot hbt hbf
  have hnd := hl.nodup k hk'
  refine ⟨_, removeFreeBlockWithRepair_of_valid hmem (hl.listsValid k hk'), ?_⟩
  set a' := (a.setFreeList k ((a.freeList k).erase (pageToPtr a.base b))).setFlag b
    flagFreeInterior
  have hM : block (min b H) (k + 1) = block H k ∪ block b k := by
    rw [hbdef, block_min_buddy hs.aligned, Set.union_comm]
  have hflags : ∀ p ≠ b, a'.pageFlags p = a.pageFlags p := fun p hp =>
    Function.update_of_ne hp _ _
  have hflag_b : a'.pageFlags b = flagFreeInterior := Function.update_self _ _ _
  have hlist : ∀ j, a'.freeList j =
      if j = k then (a.freeList k).erase (pageToPtr a.base b) else a.freeList j := by
    intro j
    simp only [a', PageAllocator.setFlag, PageAllocator.setFreeList, Function.update_apply]
  have hag : Agree a a' {b}ᶜ :=
    ⟨rfl, rfl, fun p hp => hflags p hp, fun _ _ => rfl, fun _ _ => rfl, fun _ _ => rfl⟩
  have hint : ∀ p ∈ block (min b H) (k + 1), a'.pageFlags p = flagFreeInterior := by
    intro p hp
    by_cases hpb : p = b
    · rw [hpb, hflag_b]
    · rw [hflags p hpb]
      rcases (hM ▸ hp : p ∈ block H k ∪ block b k) with hp | hp
      · by_cases hpH : p = H
        · rw [hpH, hH]
        · exact hs.interior p hp hpH
      · exact hfb.interior p hp hpb
  have hfit : min b H + 2 ^ (k + 1) ≤ a.totalPages := by
    have hpos := Nat.one_le_two_pow (n := k)
    rw [pow_succ]
    rcases buddy_cases hs.aligned with ⟨-, he⟩ | ⟨-, he⟩
    · have := hfb.fits
      rw [← hbdef] at he
      rw [min_eq_right (show H ≤ b by omega)]
      omega
    · have := hs.fits
      rw [← hbdef] at he
      rw [min_eq_left (show b ≤ H by omega)]
      omega
  have hspan : FreeSpan a' (min b H) (k + 1) :=
    ⟨⟨min_buddy_dvd hs.aligned, hk, le_min hfb.above_meta hs.above_meta, hfit⟩,
      fun p hp _ => hint p hp, fun p hp => by
        rcases (hM ▸ hp : p ∈ block H k ∪ block b k) with hp | hp
        · exact (hs.free p hp).of_tables rfl rfl rfl
        · exact (hfb.free p hp).of_tables rfl rfl rfl⟩
  have hfree : ∀ p, a'.pageFlags p = a.pageFlags p ∨
      (FreeFlag (a.pageFlags p) ∧ FreeFlag (a'.pageFlags p)) := by
    intro p
    by_cases hpb : p = b
    · subst hpb
      exact Or.inr ⟨Or.inr ⟨k, hk', hbf⟩, Or.inl hflag_b⟩
    · exact Or.inl (hflags p hpb)
  have hps : pageState a' = pageState a := pageState_eq_of_freeFlags hfree rfl
  refine ⟨⟨hl.toZoneShape.congr hag rfl fun p hp => (Set.mem_singleton_iff.mp hp) ▸ hfb.above_meta,
    ?_, ?_, ?_, ?_, ?_⟩, hspan, hint _ (head_mem_block _ _), hps, rfl, rfl, rfl, rfl,
    ⟨rfl, fun p hp => hflags p fun he => hp (by rw [he]; exact Or.inr ⟨k, hk', hbf⟩)⟩⟩
  · intro p hm ht hp
    rw [hM, Set.mem_union, not_or] at hp
    exact (hl.placed p hm ht hp.1).transfer hag (fun he => hp.2 (he ▸ head_mem_block b k))
      fun _ _ hB hd hpB =>
        have hdb := hB.disjoint_of_not_mem hfb.blk hpB hp.2
        ⟨Set.disjoint_singleton_right.mpr (Set.disjoint_right.mp hdb (head_mem_block b k)),
          hM ▸ Disjoint.union_right hd hdb⟩
  · intro j hj
    rw [hlist j]
    split_ifs with hjk
    · exact hnd.erase _
    · exact hl.nodup j hj
  · intro j hj ptr
    rw [hlist j, hM]
    constructor
    · intro hmem'
      have hold : ptr ∈ a.freeList j ∧ (j = k → ptr ≠ pageToPtr a.base b) := by
        split_ifs at hmem' with hjk
        · subst hjk
          exact ⟨(hnd.mem_erase_iff.mp hmem').2, fun _ => (hnd.mem_erase_iff.mp hmem').1⟩
        · exact ⟨hmem', fun e => absurd e hjk⟩
      obtain ⟨x, rfl, hx, hm, ht, hf⟩ := (hl.listed j hj _).mp hold.1
      have hxb : x ∉ block b k := by
        intro hxb
        have hxe : x = b := by
          by_contra hne
          exact freeHeadFlag_ne_interior (order_lt_32 hj) (hf.symm.trans (hfb.interior x hxb hne))
        subst hxe
        exact hold.2 (freeHeadFlag_inj (order_lt_32 hj) (order_lt_32 hk') (hf.symm.trans hbf)) rfl
      have hxb' : x ≠ b := fun he => hxb (he ▸ head_mem_block b k)
      exact ⟨x, rfl, by rw [Set.mem_union, not_or]; exact ⟨hx, hxb⟩, hm, ht,
        (hflags x hxb').trans hf⟩
    · rintro ⟨x, rfl, hx, hm, ht, hf⟩
      rw [Set.mem_union, not_or] at hx
      have hxb : x ≠ b := fun he => hx.2 (he ▸ head_mem_block b k)
      have hmem' := (hl.listed j hj _).mpr ⟨x, rfl, hx.1, hm, ht, (hflags x hxb).symm.trans hf⟩
      split_ifs with hjk
      · subst hjk
        exact hnd.mem_erase_iff.mpr ⟨fun he => hxb (pageToPtr_inj he), hmem'⟩
      · exact hmem'
  · intro o ho
    rw [hps]
    exact hl.owner_pages o ho
  · intro o ho
    rw [ownedHeads_eq_of_freeFlags hfree rfl rfl]
    exact hl.owner_objects o ho

/-- Where the coalescing loop stops with the block of order `K` at `H`: at `MAX_ORDER`, or
where the buddy lies outside the zone or is no free head of order `K`. -/
def MergeStopped (a : PageAllocator) (H K : Nat) : Prop :=
  K = maxOrder ∨ a.totalPages ≤ H ^^^ 2 ^ K ∨ a.pageFlags (H ^^^ 2 ^ K) ≠ freeHeadFlag K

/-- A later stage that keeps the zone's size and the buddy's flag keeps the stop. -/
theorem MergeStopped.of_buddy {a' : PageAllocator} {H K : Nat} (h : MergeStopped a H K)
    (htotal : a'.totalPages = a.totalPages)
    (hflag : a'.pageFlags (H ^^^ 2 ^ K) = a.pageFlags (H ^^^ 2 ^ K)) : MergeStopped a' H K := by
  rw [MergeStopped, htotal, hflag]
  exact h

/-- **The coalescing loop** merges the set-aside block with free buddies until it stops,
keeping every page of it a free interior and everything a client sees; the block it ends
with holds the one it started from. -/
theorem coalesceLoop_spec : ∀ fuel (a : PageAllocator) H k, k + fuel = maxOrder →
    Layout a (block H k) → FreeSpan a H k → a.pageFlags H = flagFreeInterior →
    ∃ a' H' K, coalesceLoop fuel a H k = .ok (a', H', K) ∧ Layout a' (block H' K) ∧
      FreeSpan a' H' K ∧ a'.pageFlags H' = flagFreeInterior ∧ pageState a' = pageState a ∧
      a'.base = a.base ∧ a'.pageKinds = a.pageKinds ∧ a'.pageRefcounts = a.pageRefcounts ∧
      counts a' = counts a ∧ FreeFrame a a' ∧ block H k ⊆ block H' K ∧ MergeStopped a' H' K
  | 0, a, H, k, hk, hl, hs, hH =>
    ⟨a, H, k, rfl, hl, hs, hH, rfl, rfl, rfl, rfl, rfl, .refl a, subset_rfl, .inl (by omega)⟩
  | fuel + 1, a, H, k, hk, hl, hs, hH => by
    have hlt : k < maxOrder := by omega
    by_cases hstop : (decide (a.totalPages ≤ H ^^^ 2 ^ k) ||
        a.pageFlags (H ^^^ 2 ^ k) != freeHeadFlag k) = true
    · -- the buddy is outside the zone or no free head of order `k`: the loop stops
      refine ⟨a, H, k, ?_, hl, hs, hH, rfl, rfl, rfl, rfl, rfl, .refl a, subset_rfl, .inr ?_⟩
      · rw [coalesceLoop, if_pos hlt, if_pos hstop]
      · simpa only [Bool.or_eq_true, decide_eq_true_eq, bne_iff_ne] using hstop
    · simp only [Bool.or_eq_true, decide_eq_true_eq, bne_iff_ne, ne_eq, not_or, not_le,
        not_not] at hstop
      obtain ⟨a₁, hrm, hl₁, hs₁, hH₁, hps₁, hb₁, hkd₁, hr₁, hc₁, hfr₁⟩ :=
        hl.merge hs hH hlt hstop.1 hstop.2
      obtain ⟨a', H', K, hrun, hl', hs', hH', hps', hb', hkd', hr', hc', hfr', hsub', hend'⟩ :=
        coalesceLoop_spec fuel _ _ (k + 1) (by omega) hl₁ hs₁ hH₁
      have hsub : block H k ⊆ block (min (H ^^^ 2 ^ k) H) (k + 1) := by
        rw [block_min_buddy hs.aligned]
        exact Set.subset_union_left
      refine ⟨a', H', K, ?_, hl', hs', hH', hps'.trans hps₁, hb'.trans hb₁, hkd'.trans hkd₁,
        hr'.trans hr₁, hc'.trans hc₁, hfr₁.trans hfr', hsub.trans hsub', hend'⟩
      rw [coalesceLoop, if_pos hlt, if_neg (by simp only [Bool.or_eq_true, decide_eq_true_eq,
        bne_iff_ne, ne_eq, not_or, not_le, not_not]; exact hstop), hrm, ok_bind]
      exact hrun

end Merge

/-! ## Linking the merged block -/

section Insert

variable {H K : Nat}

/-- **Linking a set-aside block**: flagged as a free head, the block goes on its list,
which needs no repair, and leaves the hole; the rest of the hole stays. -/
theorem Layout.linkBlock {rest : Set Nat} (hl : Layout a (block H K ∪ rest))
    (hd : Disjoint (block H K) rest) (hs : FreeSpan a H K)
    (hH : a.pageFlags H = flagFreeInterior) :
    insertFreeBlock (a.setFlag H (freeHeadFlag K)) K (pageToPtr a.base H) =
        .ok (linkFreeBlockUnchecked (a.setFlag H (freeHeadFlag K)) K (pageToPtr a.base H)) ∧
      Layout (linkFreeBlockUnchecked (a.setFlag H (freeHeadFlag K)) K (pageToPtr a.base H))
        rest ∧
      pageState (linkFreeBlockUnchecked (a.setFlag H (freeHeadFlag K)) K
        (pageToPtr a.base H)) = pageState a := by
  set a₂ := linkFreeBlockUnchecked (a.setFlag H (freeHeadFlag K)) K (pageToPtr a.base H)
  have hK := hs.order_le
  have hpos := Nat.one_le_two_pow (n := K)
  have hHt : H < a.totalPages := by have := hs.fits; omega
  have hHb : H ∈ block H K := head_mem_block H K
  have hHr : H ∉ rest := Set.disjoint_left.mp hd hHb
  have hflags : ∀ p ≠ H, a₂.pageFlags p = a.pageFlags p := fun p hp =>
    Function.update_of_ne hp _ _
  have hflag_H : a₂.pageFlags H = freeHeadFlag K := Function.update_self _ _ _
  have hlist : ∀ j, a₂.freeList j =
      if j = K then pageToPtr a.base H :: a.freeList K else a.freeList j := by
    intro j
    simp only [a₂, linkFreeBlockUnchecked, PageAllocator.setFlag, PageAllocator.setFreeList,
      Function.update_apply]
  have hag : Agree a a₂ {H}ᶜ :=
    ⟨rfl, rfl, fun p hp => hflags p hp, fun _ _ => rfl, fun _ _ => rfl, fun _ _ => rfl⟩
  have hfb : FreeBlock a₂ H K :=
    ⟨⟨hs.toInZone.congr hag, fun p hp hne => (hflags p hne).trans (hs.interior p hp hne),
      fun p hp => (hs.free p hp).of_tables rfl rfl rfl⟩, hflag_H⟩
  have hnot : pageToPtr a.base H ∉ a.freeList K := by
    intro hmem
    obtain ⟨x, hx, hxH, -⟩ := (hl.listed K hK _).mp hmem
    rw [← pageToPtr_inj hx] at hxH
    exact hxH (Or.inl hHb)
  have hfree : ∀ p, a₂.pageFlags p = a.pageFlags p ∨
      (FreeFlag (a.pageFlags p) ∧ FreeFlag (a₂.pageFlags p)) := by
    intro p
    by_cases hpH : p = H
    · subst hpH
      exact Or.inr ⟨Or.inl hH, Or.inr ⟨K, hK, hflag_H⟩⟩
    · exact Or.inl (hflags p hpH)
  have hps : pageState a₂ = pageState a := pageState_eq_of_freeFlags hfree rfl
  have hwf : Layout a₂ rest := by
    refine ⟨hl.toZoneShape.congr hag rfl fun p hp => (Set.mem_singleton_iff.mp hp) ▸
      hs.above_meta, ?_, ?_, ?_, ?_, ?_⟩
    · intro p hm ht hpr
      by_cases hp : p ∈ block H K
      · exact .free hfb hd hp
      · have hp' : p ∉ block H K ∪ rest := fun h' => h'.elim hp hpr
        exact (hl.placed p hm ht hp').transfer hag (fun he => hp (he ▸ hHb))
          fun _ _ _ hdB _ => ⟨Set.disjoint_singleton_right.mpr
            (Set.disjoint_right.mp hdB (Or.inl hHb)), hdB.mono_right Set.subset_union_right⟩
    · intro j hj
      rw [hlist j]
      split_ifs with hjK
      · subst hjK
        exact List.nodup_cons.mpr ⟨hnot, hl.nodup j hj⟩
      · exact hl.nodup j hj
    · intro j hj ptr
      rw [hlist j]
      constructor
      · intro hmem
        by_cases hnew : j = K ∧ ptr = pageToPtr a.base H
        · obtain ⟨rfl, rfl⟩ := hnew
          exact ⟨H, rfl, hHr, hs.above_meta, hHt, hflag_H⟩
        · have hmem' : ptr ∈ a.freeList j := by
            split_ifs at hmem with hjK
            · subst hjK
              rcases List.mem_cons.mp hmem with he | he
              · exact absurd ⟨rfl, he⟩ hnew
              · exact he
            · exact hmem
          obtain ⟨x, rfl, hx, hm, ht, hf⟩ := (hl.listed j hj _).mp hmem'
          have hxH : x ≠ H := fun he => hx (Or.inl (he ▸ hHb))
          exact ⟨x, rfl, fun hxr => hx (Or.inr hxr), hm, ht, (hflags x hxH).trans hf⟩
      · rintro ⟨x, rfl, hxr, hm, ht, hf⟩
        by_cases hx : x ∈ block H K
        · have hxe : x = H := by
            by_contra hne
            rw [hfb.interior x hx hne] at hf
            exact freeHeadFlag_ne_interior (order_lt_32 hj) hf.symm
          subst hxe
          have hjK : j = K := freeHeadFlag_inj (order_lt_32 hj) (order_lt_32 hK)
            (hf.symm.trans hflag_H)
          subst hjK
          rw [if_pos rfl]
          exact List.mem_cons_self ..
        · have hxH : x ≠ H := fun he => hx (he ▸ hHb)
          have hmem := (hl.listed j hj _).mpr ⟨x, rfl, fun h' => h'.elim hx hxr, hm, ht,
            (hflags x hxH).symm.trans hf⟩
          split_ifs with hjK
          · subst hjK
            exact List.mem_cons_of_mem _ hmem
          · exact hmem
    · intro o ho
      rw [hps]
      exact hl.owner_pages o ho
    · intro o ho
      rw [ownedHeads_eq_of_freeFlags hfree rfl rfl]
      exact hl.owner_objects o ho
  have hins : insertFreeBlock (a.setFlag H (freeHeadFlag K)) K (pageToPtr a.base H) = .ok a₂ :=
    insertFreeBlock_of_valid fun x hx =>
      hwf.valid_of_mem hK (by rw [hlist K, if_pos rfl]; exact List.mem_cons_of_mem _ hx)
  exact ⟨hins, hwf, hps⟩

/-- **The end of `free_allocated_block`**: the set-aside block, flagged as a free head,
goes on its list, which needs no repair; the layout has no hole left. -/
theorem Layout.insertHead (hl : Layout a (block H K)) (hs : FreeSpan a H K)
    (hH : a.pageFlags H = flagFreeInterior) :
    insertFreeBlock (a.setFlag H (freeHeadFlag K)) K (pageToPtr a.base H) =
        .ok (linkFreeBlockUnchecked (a.setFlag H (freeHeadFlag K)) K (pageToPtr a.base H)) ∧
      WellFormed (linkFreeBlockUnchecked (a.setFlag H (freeHeadFlag K)) K (pageToPtr a.base H)) ∧
      pageState (linkFreeBlockUnchecked (a.setFlag H (freeHeadFlag K)) K
        (pageToPtr a.base H)) = pageState a ∧
      FreeFrame a (linkFreeBlockUnchecked (a.setFlag H (freeHeadFlag K)) K (pageToPtr a.base H)) := by
  have hl' : Layout a (block H K ∪ ∅) := by rwa [Set.union_empty]
  obtain ⟨hins, hwf, hps⟩ := hl'.linkBlock (Set.disjoint_empty _) hs hH
  exact ⟨hins, hwf, hps, rfl, fun p hp =>
    Function.update_of_ne (fun he => hp (by rw [he]; exact Or.inl hH)) _ _⟩

end Insert

/-! ## `free` -/

/-- What `free` leaves after freeing the block of order `k` at `h`: its pages are free, of
kind `FREE` with refcount zero, `free_count` is up by its size, nothing else a client sees
changes, the allocator is well formed, and the block lies in a free block that coalescing
could not grow. -/
structure Freed (a a' : PageAllocator) (h k : Nat) : Prop where
  wf : WellFormed a'
  pageState_eq : pageState a' = freePages (pageState a) h k
  kinds_eq : a'.pageKinds = fillRange a.pageKinds h (2 ^ k) .free
  refcounts_eq : a'.pageRefcounts = fillRange a.pageRefcounts h (2 ^ k) 0
  base_eq : a'.base = a.base
  total_eq : a'.totalPages = a.totalPages
  freeCount_eq : a'.freeCount = a.freeCount + (2 ^ k).toUInt32
  cached_eq : a'.cachedOrder0Count = a.cachedOrder0Count
  /-- the block was merged with its free buddies into a free block that merges no further -/
  merged : ∃ H K, block h k ⊆ block H K ∧ FreeBlock a' H K ∧ MergeStopped a' H K

section Free

variable {h k : Nat} {o : UInt8} {ptr : Nat}

/-- **The end of `free_allocated_block`**, once the owner is released as `releaseOwner`
says: a block of the zone whose clearing sets it aside is merged with its free buddies and
linked, leaving a well-formed allocator; a client sees the cleared state, and of the
counters only `free_count` moves. -/
theorem freeAllocatedBlock_of_cleared {a₁ : PageAllocator} {releaseOwner : Bool}
    (hk : k ≤ maxOrder) (hfit : h + 2 ^ k ≤ a.totalPages) (ht : a.totalPages < 2 ^ 32)
    (hrel : (if releaseOwner then releaseBlockOwner a h (2 ^ k) else pure a) = .ok a₁)
    (hl : Layout (clearAllocatedBlock a₁ h (2 ^ k)) (block h k))
    (hs : FreeSpan (clearAllocatedBlock a₁ h (2 ^ k)) h k)
    (hh : (clearAllocatedBlock a₁ h (2 ^ k)).pageFlags h = flagFreeInterior) :
    ∃ a', freeAllocatedBlock a h k releaseOwner = .ok (2 ^ k * pageSize, a') ∧ WellFormed a' ∧
      pageState a' = pageState (clearAllocatedBlock a₁ h (2 ^ k)) ∧ a'.base = a₁.base ∧
      a'.pageKinds = (clearAllocatedBlock a₁ h (2 ^ k)).pageKinds ∧
      a'.pageRefcounts = (clearAllocatedBlock a₁ h (2 ^ k)).pageRefcounts ∧
      a'.totalPages = a₁.totalPages ∧ a'.freeCount = a₁.freeCount + (2 ^ k).toUInt32 ∧
      a'.cachedOrder0Count = a₁.cachedOrder0Count ∧
      FreeFrame (clearAllocatedBlock a₁ h (2 ^ k)) a' ∧
      ∃ H K, block h k ⊆ block H K ∧ FreeBlock a' H K ∧ MergeStopped a' H K := by
  obtain ⟨a₃, H, K, hco, hl₃, hs₃, hH₃, hps₃, hb₃, hkd₃, hr₃, hc₃, hfr₃, hsub, hend⟩ :=
    coalesceLoop_spec (maxOrder - k) _ h k (by omega) hl hs hh
  obtain ⟨hins, hwf, hps₄, hfr₄⟩ := hl₃.insertHead hs₃ hH₃
  -- the merge and the link leave the counters alone: one addition to `free_count`
  simp only [counts, Prod.mk.injEq] at hc₃
  set a₄ := linkFreeBlockUnchecked (a₃.setFlag H (freeHeadFlag K)) K (pageToPtr a₃.base H)
  have hwf' : WellFormed { a₄ with freeCount := a₄.freeCount + (2 ^ k).toUInt32 } :=
    hwf.setCounts _ _
  have hhead : a₄.pageFlags H = freeHeadFlag K := Function.update_self _ _ _
  have hbuddy : a₄.pageFlags (H ^^^ 2 ^ K) = a₃.pageFlags (H ^^^ 2 ^ K) :=
    Function.update_of_ne (buddy_ne hs₃.aligned) _ _
  have hHt : H < a₃.totalPages := by
    have := Nat.one_le_two_pow (n := K)
    have := hs₃.fits
    omega
  refine ⟨{ a₄ with freeCount := a₄.freeCount + (2 ^ k).toUInt32 }, ?_, hwf',
    hps₄.trans hps₃, hb₃, hkd₃, hr₃, hc₃.1,
    by rw [show a₄.freeCount = a₁.freeCount from hc₃.2.1], hc₃.2.2,
    hfr₃.trans ⟨hfr₄.owners, hfr₄.flags⟩,
    H, K, hsub, (hwf'.head_free hs₃.above_meta hHt (Set.notMem_empty H) hs₃.order_le hhead).1,
    hend.of_buddy rfl hbuddy⟩
  have hfit' : (decide (a.totalPages ≤ h) || blockOverruns a.totalPages h (2 ^ k)) = false := by
    have := Nat.one_le_two_pow (n := k)
    rw [blockOverruns_eq_false hfit ht, Bool.or_false, decide_eq_false_iff_not]
    omega
  rw [freeAllocatedBlock, if_neg (Nat.not_lt.mpr hk), hfit']
  cases releaseOwner with
  | true =>
    rw [if_pos rfl] at hrel
    simp only [Bool.false_eq_true, if_false, if_true, hrel, ok_bind, hco, hins, pure_eq_ok]
  | false =>
    rw [if_neg Bool.false_ne_true, pure_eq_ok, Except.ok.injEq] at hrel
    subst hrel
    simp only [Bool.false_eq_true, if_false, ok_bind, hco, hins, pure_eq_ok]

/-- **`free_allocated_block` on an owned span**: it frees exactly the span's pages, returns
their bytes, and leaves a well-formed allocator that keeps the flags and owners of every
other page not flagged free. -/
theorem freeAllocatedBlock_of_ownedSpan (hl : WellFormed a) (hsp : OwnedSpan a h k o) :
    ∃ a', freeAllocatedBlock a h k true = .ok (2 ^ k * pageSize, a') ∧ Freed a a' h k ∧
      ∀ p ∉ block h k, ¬ FreeFlag (a.pageFlags p) →
        a'.pageFlags p = a.pageFlags p ∧ a'.pageOwners p = a.pageOwners p := by
  obtain ⟨a₁, hrel, hl₂, hs₂, hh₂, hps₂, hb₂, hkd₂, hr₂, hc₂, hag₂⟩ := hl.clearSpan hsp
  simp only [counts, Prod.mk.injEq] at hc₂
  obtain ⟨a', hres, hwf, hps, hbase, hkd, hr, ht, hfc, hcc, hfr, hmerged⟩ :=
    freeAllocatedBlock_of_cleared hsp.order_le hsp.fits hl.total_lt
      (by rw [if_pos rfl]; exact hrel) hl₂ hs₂ hh₂
  refine ⟨a', hres, ⟨hwf, hps.trans hps₂, hkd.trans hkd₂, hr.trans hr₂, hbase.trans hb₂,
    ht.trans hc₂.1, by rw [hfc, show a₁.freeCount = a.freeCount from hc₂.2.1],
    hcc.trans hc₂.2.2, hmerged⟩, fun p hp hf => ?_⟩
  have hflag := hag₂.flags p hp
  refine ⟨(hfr.flags p (by rw [hflag]; exact hf)).trans hflag, ?_⟩
  rw [hfr.owners]
  exact hag₂.owners p hp

/-- **`free_allocated_block` on a live block**: it frees exactly the block's pages,
returns their bytes, and leaves a well-formed allocator. -/
theorem freeAllocatedBlock_spec (hl : WellFormed a) (hb : AllocBlock a h k o) :
    ∃ a', freeAllocatedBlock a h k true = .ok (2 ^ k * pageSize, a') ∧ Freed a a' h k := by
  obtain ⟨a', hres, hF, -⟩ := freeAllocatedBlock_of_ownedSpan hl hb.ownedSpan
  exact ⟨a', hres, hF⟩

/-- **`free_allocated_block` keeps the counters exact**: the block's pages were allocated,
so `free_count` gains exactly them, and stays within the zone. -/
theorem Counted.freed {a' : PageAllocator} (hc : Counted a) (hsp : OwnedSpan a h k o)
    (hF : Freed a a' h k) : Counted a' := by
  have hown := hsp.allocated
  have hfree := card_freeIn_freePages hsp.fits hown
  have hk := toNat_blockSize hsp.order_le
  have hle : (freeIn a.totalPages (pageState a')).card ≤ a.totalPages :=
    (Finset.card_filter_le _ _).trans (Finset.card_range _).le
  have ht : a.totalPages < 2 ^ 32 := hF.total_eq ▸ hF.wf.total_lt
  rw [hF.pageState_eq] at hle
  refine ⟨?_, ?_⟩
  · rw [hF.freeCount_eq, UInt32.toNat_add, hk, hc.free_count, hF.total_eq, hF.pageState_eq,
      hfree, Nat.mod_eq_of_lt (by omega)]
  · rw [hF.cached_eq, hc.cached_count, hF.total_eq, hF.pageState_eq, cachedIn_freePages hown]

/-- `ptr_in_zone` holds only of the addresses of the zone's pages. -/
theorem pageToPtr_ptrToPage (hbase : a.base % pageSize = 0) (hz : ptrInZone a ptr = true) :
    pageToPtr a.base (ptrToPage a.base ptr) = ptr ∧ ptrToPage a.base ptr < a.totalPages := by
  simp only [ptrInZone, ptrIsPageAligned, Bool.and_eq_true, bne_iff_ne, beq_iff_eq,
    decide_eq_true_eq] at hz
  obtain ⟨⟨⟨-, hal⟩, hle⟩, hlt⟩ := hz
  rw [show pageSize - 1 = 2 ^ 12 - 1 from rfl, Nat.and_two_pow_sub_one_eq_mod] at hal
  simp only [pageToPtr, ptrToPage, pageSize] at hal hlt hbase ⊢
  constructor
  · omega
  · exact Nat.div_lt_of_lt_mul (by omega)

/-- What `free` does with the address of a live block: the kmalloc checks, the slab and
refcount refusals, then `free_allocated_block`. -/
theorem free_of_head (hl : WellFormed a) (hb : AllocBlock a h k o) :
    free a (pageToPtr a.base h) =
      if pageHasLiveMediumAllocMagic a h then .error "page_free called on live kmalloc medium alloc"
      else if pageHasLiveLargeAllocMagic a h then
        .error "page_free called on live kmalloc large alloc"
      else if (List.range (2 ^ k)).any (fun i => pageHasLiveSlabKind a (h + i)) then .ok (0, a)
      else if !allocatedBlockHasDirectFreeRefs a h k then .ok (0, a)
      else freeAllocatedBlock a h k true := by
  have hk32 := order_lt_32 hb.order_le
  have hpos : 0 < h := Nat.lt_of_lt_of_le hl.meta_pos hb.above_meta
  have ht : h < a.totalPages := by have := Nat.one_le_two_pow (n := k); have := hb.fits; omega
  have hz := ptrInZone_pageToPtr hl.base_aligned hpos ht
  have hne : (pageToPtr a.base h == 0) = false := by
    simp only [ptrInZone, Bool.and_eq_true, bne_iff_ne] at hz
    exact beq_eq_false_iff_ne.mpr hz.1.1.1
  have hlive : (decide (a.totalPages ≤ h) || allocHeadFlag k &&& 0xC0 != 0x80) = false := by
    rw [allocHeadFlag_and hk32, Bool.or_eq_false_iff, decide_eq_false_iff_not]
    exact ⟨Nat.not_le.mpr ht, rfl⟩
  rw [free, hne, hz]
  simp only [ptrToPage_pageToPtr, hb.head, allocHeadFlag_order hk32, Bool.not_true,
    Bool.or_false, Bool.false_eq_true, if_false, hlive, if_neg (Nat.not_lt.mpr hb.order_le)]

/-- `free` of an address that heads no live block refuses it and changes nothing. -/
theorem free_of_not_allocHead (hl : WellFormed a)
    (hptr : ∀ h < a.totalPages, ptr = pageToPtr a.base h → a.pageFlags h &&& 0xC0 ≠ flagAllocHead) :
    free a ptr = .ok (0, a) := by
  rw [free]
  by_cases hz : (ptr == 0 || !ptrInZone a ptr) = true
  · rw [if_pos hz]
  · rw [if_neg hz]
    simp only [Bool.or_eq_true, beq_iff_eq, Bool.not_eq_true', not_or, Bool.not_eq_false] at hz
    obtain ⟨hp, ht⟩ := pageToPtr_ptrToPage hl.base_aligned hz.2
    have hflag : (decide (a.totalPages ≤ ptrToPage a.base ptr) ||
        a.pageFlags (ptrToPage a.base ptr) &&& 0xC0 != 0x80) = true := by
      rw [Bool.or_eq_true, bne_iff_ne]
      exact Or.inr (hptr _ ht hp.symm)
    rw [if_pos hflag]

/-- **`free` of an address that heads no live block** refuses it and changes nothing. -/
theorem free_of_not_live (hl : WellFormed a)
    (hptr : ∀ h k o, ptr = pageToPtr a.base h → ¬ AllocBlock a h k o) :
    free a ptr = .ok (0, a) := by
  refine free_of_not_allocHead hl fun h ht hp hf => ?_
  obtain ⟨o, hb, -⟩ := hl.head_alloc ht (Set.notMem_empty h) hf
  exact hptr h _ o hp hb

/-- **`free` of a live block** that no slab and no extra reference holds, and that carries
no live kmalloc header, frees exactly its pages and returns their bytes. -/
theorem free_of_allocBlock (hl : WellFormed a) (hb : AllocBlock a h k o)
    (hmed : pageHasLiveMediumAllocMagic a h = false)
    (hlarge : pageHasLiveLargeAllocMagic a h = false)
    (hslab : ∀ p ∈ block h k, a.pageKinds p ≠ .slab)
    (hrefs : ∀ p ∈ block h k, a.pageRefcounts p = 1) :
    ∃ a', free a (pageToPtr a.base h) = .ok (2 ^ k * pageSize, a') ∧ Freed a a' h k := by
  have hany : ((List.range (2 ^ k)).any fun i => pageHasLiveSlabKind a (h + i)) = false := by
    rw [Bool.eq_false_iff, ne_eq, any_range_iff]
    rintro ⟨p, hp, hs⟩
    exact hslab p hp (beq_iff_eq.mp hs)
  have hall : allocatedBlockHasDirectFreeRefs a h k = true :=
    (all_range_iff fun p => a.pageRefcounts p == 1).mpr fun p hp => beq_iff_eq.mpr (hrefs p hp)
  rw [free_of_head hl hb, hmed, hlarge, hany, hall]
  exact freeAllocatedBlock_spec hl hb

/-- `free` of a live block that a slab or an extra reference holds refuses it and changes
nothing. -/
theorem free_of_allocBlock_held (hl : WellFormed a) (hb : AllocBlock a h k o)
    (hmed : pageHasLiveMediumAllocMagic a h = false)
    (hlarge : pageHasLiveLargeAllocMagic a h = false)
    (hheld : (∃ p ∈ block h k, a.pageKinds p = .slab) ∨ ∃ p ∈ block h k, a.pageRefcounts p ≠ 1) :
    free a (pageToPtr a.base h) = .ok (0, a) := by
  rw [free_of_head hl hb, hmed, hlarge]
  simp only [Bool.false_eq_true, if_false]
  rcases hheld with ⟨p, hp, hs⟩ | ⟨p, hp, hr⟩
  · have hany : ((List.range (2 ^ k)).any fun i => pageHasLiveSlabKind a (h + i)) = true :=
      (any_range_iff fun p => pageHasLiveSlabKind a p).mpr ⟨p, hp, beq_iff_eq.mpr hs⟩
    rw [if_pos hany]
  · have hall : allocatedBlockHasDirectFreeRefs a h k = false := by
      rw [Bool.eq_false_iff, ne_eq, allocatedBlockHasDirectFreeRefs,
        all_range_iff fun p => a.pageRefcounts p == 1]
      exact fun hall => hr (beq_iff_eq.mp (hall p hp))
    rw [hall, Bool.not_false, if_pos rfl, ite_self]

end Free

end Wos.PageAlloc
