import WosKernel.PageAlloc
import WosKernel.Lib.Buddy

/-! # The layout of a well-formed zone

`Layout a hole` is the allocator's invariant with a *hole*: the pages of `hole` are set
aside while an operation works on them (the block that `alloc` splits, the block that
`free` merges with its buddies), and the invariant says nothing of them.  Outside the
hole,

* the metadata pages are reserved, and every other page of the zone lies in a block of
  the layout, free or allocated to one valid owner, or is a cached order-0 page that
  keeps the tables of a free page (`Placed`); every block is aligned, of order at most
  `MAX_ORDER`, and inside the usable part of the zone;
* `free_list[k]` lists, without repetition, exactly the pages flagged as heads of free
  blocks of order `k`;
* `owner_pages` and `owner_objects` count, for every valid owner, its allocated pages and
  its allocated heads.

A well-formed allocator is one whose layout has no hole (`WellFormed`).  That two blocks
of a layout are equal or disjoint (`Blk.eq_or_disjoint`) is not a field: it follows from
the flags by the laminarity of aligned blocks.

What a page is to a client (`pageState`: free, allocated to an owner, cached, reserved)
is the page-set model that `alloc` and `free` refine (`allocPages`, `freePages`).  The
counters `free_count` and `cached_order0_count` count its free and cached pages
(`Counted`), an invariant of its own: the operations keep it only where they finish.
-/

namespace Wos.PageAlloc

open Buddy

/-! ## Flag bytes -/

theorem toNat_freeHeadFlag {k : Nat} (hk : k < 32) : (freeHeadFlag k).toNat = 64 + k := by
  have key : ∀ x : Fin 32, (freeHeadFlag x).toNat = 64 + x := by decide
  exact key ⟨k, hk⟩

theorem toNat_allocHeadFlag {k : Nat} (hk : k < 32) : (allocHeadFlag k).toNat = 128 + k := by
  have key : ∀ x : Fin 32, (allocHeadFlag x).toNat = 128 + x := by decide
  exact key ⟨k, hk⟩

theorem freeHeadFlag_and {k : Nat} (hk : k < 32) : freeHeadFlag k &&& 0xC0 = flagFreeHead := by
  have key : ∀ x : Fin 32, freeHeadFlag x &&& 0xC0 = flagFreeHead := by decide
  exact key ⟨k, hk⟩

theorem allocHeadFlag_and {k : Nat} (hk : k < 32) : allocHeadFlag k &&& 0xC0 = flagAllocHead := by
  have key : ∀ x : Fin 32, allocHeadFlag x &&& 0xC0 = flagAllocHead := by decide
  exact key ⟨k, hk⟩

theorem allocHeadFlag_order {k : Nat} (hk : k < 32) : (allocHeadFlag k &&& 0x1F).toNat = k := by
  have key : ∀ x : Fin 32, (allocHeadFlag x &&& 0x1F).toNat = x := by decide
  exact key ⟨k, hk⟩

theorem freeHeadFlag_inj {j k : Nat} (hj : j < 32) (hk : k < 32)
    (h : freeHeadFlag j = freeHeadFlag k) : j = k := by
  have := congrArg UInt8.toNat h
  rw [toNat_freeHeadFlag hj, toNat_freeHeadFlag hk] at this
  omega

theorem allocHeadFlag_inj {j k : Nat} (hj : j < 32) (hk : k < 32)
    (h : allocHeadFlag j = allocHeadFlag k) : j = k := by
  have := congrArg UInt8.toNat h
  rw [toNat_allocHeadFlag hj, toNat_allocHeadFlag hk] at this
  omega

theorem ne_of_toNat {f g : UInt8} (h : f.toNat ≠ g.toNat) : f ≠ g := fun e => h (by rw [e])

theorem freeHeadFlag_ne_allocHeadFlag {j k : Nat} (hj : j < 32) (hk : k < 32) :
    freeHeadFlag j ≠ allocHeadFlag k := by
  apply ne_of_toNat
  rw [toNat_freeHeadFlag hj, toNat_allocHeadFlag hk]
  omega

theorem freeHeadFlag_ne_interior {k : Nat} (hk : k < 32) : freeHeadFlag k ≠ flagFreeInterior := by
  apply ne_of_toNat
  rw [toNat_freeHeadFlag hk]
  simp only [flagFreeInterior, UInt8.reduceToNat]
  omega

theorem freeHeadFlag_ne_cont {k : Nat} (hk : k < 32) : freeHeadFlag k ≠ flagAllocCont := by
  apply ne_of_toNat
  rw [toNat_freeHeadFlag hk]
  simp only [flagAllocCont, UInt8.reduceToNat]
  omega

theorem freeHeadFlag_ne_cached {k : Nat} (hk : k < 32) : freeHeadFlag k ≠ flagCachedOrder0 := by
  apply ne_of_toNat
  rw [toNat_freeHeadFlag hk]
  simp only [flagCachedOrder0, UInt8.reduceToNat]
  omega

theorem freeHeadFlag_ne_reserved {k : Nat} (hk : k < 32) : freeHeadFlag k ≠ flagReserved := by
  apply ne_of_toNat
  rw [toNat_freeHeadFlag hk]
  simp only [flagReserved, UInt8.reduceToNat]
  omega

theorem allocHeadFlag_ne_interior {k : Nat} (hk : k < 32) : allocHeadFlag k ≠ flagFreeInterior := by
  apply ne_of_toNat
  rw [toNat_allocHeadFlag hk]
  simp only [flagFreeInterior, UInt8.reduceToNat]
  omega

theorem allocHeadFlag_ne_cont {k : Nat} (hk : k < 32) : allocHeadFlag k ≠ flagAllocCont := by
  apply ne_of_toNat
  rw [toNat_allocHeadFlag hk]
  simp only [flagAllocCont, UInt8.reduceToNat]
  omega

theorem allocHeadFlag_ne_cached {k : Nat} (hk : k < 32) : allocHeadFlag k ≠ flagCachedOrder0 := by
  apply ne_of_toNat
  rw [toNat_allocHeadFlag hk]
  simp only [flagCachedOrder0, UInt8.reduceToNat]
  omega

theorem order_lt_32 {k : Nat} (hk : k ≤ maxOrder) : k < 32 := by
  unfold maxOrder at hk
  omega

/-! ## The page-set model -/

/-- What a page is to a client. -/
inductive PageState
  | free
  | cached
  | reserved
  | allocated (owner : UInt8)
  | corrupt
deriving DecidableEq, Repr

/-- The page-set view of an allocator: what its flag byte and owner say page `p` is. -/
def pageState (a : PageAllocator) (p : Nat) : PageState :=
  let f := a.pageFlags p
  if f = flagReserved then .reserved
  else if f = flagCachedOrder0 then .cached
  else if f &&& 0xC0 = flagAllocHead ∨ f = flagAllocCont then
    .allocated (loadPageOwner (a.pageOwners p))
  else if f &&& 0xC0 = flagFreeHead ∨ f = flagFreeInterior then .free
  else .corrupt

theorem pageState_of_freeHeadFlag {a : PageAllocator} {p k : Nat} (hk : k < 32)
    (h : a.pageFlags p = freeHeadFlag k) : pageState a p = .free := by
  have key : ∀ x : Fin 32, freeHeadFlag x ≠ flagReserved ∧ freeHeadFlag x ≠ flagCachedOrder0 ∧
      ¬ (freeHeadFlag x &&& 0xC0 = flagAllocHead ∨ freeHeadFlag x = flagAllocCont) := by decide
  obtain ⟨h₁, h₂, h₃⟩ : freeHeadFlag k ≠ flagReserved ∧ freeHeadFlag k ≠ flagCachedOrder0 ∧
      ¬ (freeHeadFlag k &&& 0xC0 = flagAllocHead ∨ freeHeadFlag k = flagAllocCont) := key ⟨k, hk⟩
  simp only [pageState, h]
  rw [if_neg h₁, if_neg h₂, if_neg h₃, if_pos (Or.inl (freeHeadFlag_and hk))]

theorem pageState_of_interior {a : PageAllocator} {p : Nat}
    (h : a.pageFlags p = flagFreeInterior) : pageState a p = .free := by
  simp only [pageState, h]
  rfl

theorem pageState_of_allocHeadFlag {a : PageAllocator} {p k : Nat} (hk : k < 32)
    (h : a.pageFlags p = allocHeadFlag k) :
    pageState a p = .allocated (loadPageOwner (a.pageOwners p)) := by
  have key : ∀ x : Fin 32, allocHeadFlag x ≠ flagReserved ∧ allocHeadFlag x ≠ flagCachedOrder0 := by
    decide
  obtain ⟨h₁, h₂⟩ : allocHeadFlag k ≠ flagReserved ∧ allocHeadFlag k ≠ flagCachedOrder0 :=
    key ⟨k, hk⟩
  simp only [pageState, h]
  rw [if_neg h₁, if_neg h₂, if_pos (Or.inl (allocHeadFlag_and hk))]

theorem pageState_of_cont {a : PageAllocator} {p : Nat} (h : a.pageFlags p = flagAllocCont) :
    pageState a p = .allocated (loadPageOwner (a.pageOwners p)) := by
  simp only [pageState, h]
  rfl

theorem pageState_congr {a a' : PageAllocator} {p : Nat} (hf : a'.pageFlags p = a.pageFlags p)
    (ho : a'.pageOwners p = a.pageOwners p) : pageState a' p = pageState a p := by
  simp only [pageState, hf, ho]

/-- A page a client sees as free is no allocated head. -/
theorem not_allocHead_of_pageState_free {a : PageAllocator} {p : Nat}
    (h : pageState a p = .free) : ¬ a.pageFlags p &&& 0xC0 = flagAllocHead := by
  intro hh
  simp only [pageState] at h
  split_ifs at h with h₁ h₂ h₃
  exact h₃ (Or.inl hh)

/-- A page a client sees allocated to `o` is flagged as an allocated head or continuation,
and its owner loads as `o`. -/
theorem allocated_of_pageState {a : PageAllocator} {p : Nat} {o : UInt8}
    (h : pageState a p = .allocated o) :
    (a.pageFlags p &&& 0xC0 = flagAllocHead ∨ a.pageFlags p = flagAllocCont) ∧
      loadPageOwner (a.pageOwners p) = o := by
  simp only [pageState] at h
  split_ifs at h with h₁ h₂ h₃
  exact ⟨h₃, PageState.allocated.inj h⟩

/-- A client sees exactly the pages flagged cached as cached. -/
theorem pageState_eq_cached_iff {a : PageAllocator} {p : Nat} :
    pageState a p = .cached ↔ a.pageFlags p = flagCachedOrder0 := by
  refine ⟨fun hs => ?_, fun hc => by rw [pageState, hc, if_neg (by decide), if_pos rfl]⟩
  simp only [pageState] at hs
  split_ifs at hs with h₁ h₂
  exact h₂

/-- The page-set model of an allocation: the block of order `k` at `h` goes to `owner`. -/
def allocPages (m : Nat → PageState) (h k : Nat) (owner : UInt8) : Nat → PageState :=
  fun p => if p ∈ block h k then .allocated owner else m p

/-- The page-set model of a free: the block of order `k` at `h` becomes free. -/
def freePages (m : Nat → PageState) (h k : Nat) : Nat → PageState :=
  fun p => if p ∈ block h k then .free else m p

/-- The pages below `n` that `m` gives to `o`. -/
def ownedIn (n : Nat) (m : Nat → PageState) (o : UInt8) : Finset Nat :=
  (Finset.range n).filter fun p => m p = .allocated o

@[simp] theorem mem_ownedIn {n p : Nat} {m : Nat → PageState} {o : UInt8} :
    p ∈ ownedIn n m o ↔ p < n ∧ m p = .allocated o := by
  simp [ownedIn]

theorem allocPages_of_mem {m : Nat → PageState} {h k p : Nat} {owner : UInt8}
    (hp : p ∈ block h k) : allocPages m h k owner p = .allocated owner := if_pos hp

theorem allocPages_of_not_mem {m : Nat → PageState} {h k p : Nat} {owner : UInt8}
    (hp : p ∉ block h k) : allocPages m h k owner p = m p := if_neg hp

theorem freePages_of_mem {m : Nat → PageState} {h k p : Nat} (hp : p ∈ block h k) :
    freePages m h k p = .free := if_pos hp

theorem freePages_of_not_mem {m : Nat → PageState} {h k p : Nat} (hp : p ∉ block h k) :
    freePages m h k p = m p := if_neg hp

/-- Freeing a block that was allocated from free pages gives back the page set it was
taken from. -/
theorem freePages_allocPages {m : Nat → PageState} {h k : Nat} {owner : UInt8}
    (hfree : ∀ p ∈ block h k, m p = .free) : freePages (allocPages m h k owner) h k = m := by
  funext p
  by_cases hp : p ∈ block h k
  · rw [freePages_of_mem hp, hfree p hp]
  · rw [freePages_of_not_mem hp, allocPages_of_not_mem hp]

/-- Adding to `o`'s pages a block of pages it did not own raises its count by the block's
size. -/
theorem card_ownedIn_add {n h k : Nat} {m m' : Nat → PageState} {o : UInt8}
    (hfit : h + 2 ^ k ≤ n) (hin : ∀ p ∈ block h k, m' p = .allocated o ∧ m p ≠ .allocated o)
    (hout : ∀ p ∉ block h k, m' p = m p) :
    (ownedIn n m' o).card = (ownedIn n m o).card + 2 ^ k :=
  card_filter_of_block hfit hin fun p hp => by rw [hout p hp]

/-- `o`'s pages are the same below `n` when no page below `n` changes whether `o` owns it. -/
theorem ownedIn_congr {n : Nat} {m m' : Nat → PageState} {o : UInt8}
    (h : ∀ p < n, m' p = .allocated o ↔ m p = .allocated o) : ownedIn n m' o = ownedIn n m o := by
  ext p
  rw [mem_ownedIn, mem_ownedIn]
  exact ⟨fun hp => ⟨hp.1, (h p hp.1).mp hp.2⟩, fun hp => ⟨hp.1, (h p hp.1).mpr hp.2⟩⟩

/-- Allocating a free block to `owner` adds its pages to `owner`'s and leaves the other
owners' alone. -/
theorem card_ownedIn_allocPages {m : Nat → PageState} {h k n : Nat} {owner : UInt8} (o : UInt8)
    (hfit : h + 2 ^ k ≤ n) (hfree : ∀ p ∈ block h k, m p = .free) :
    (ownedIn n (allocPages m h k owner) o).card =
      (ownedIn n m o).card + if o = owner then 2 ^ k else 0 := by
  by_cases ho : o = owner
  · subst ho
    rw [if_pos rfl]
    refine card_ownedIn_add hfit (fun p hp => ⟨allocPages_of_mem hp, ?_⟩)
      (fun p hp => allocPages_of_not_mem hp)
    rw [hfree p hp]
    exact PageState.noConfusion
  · rw [if_neg ho, Nat.add_zero]
    congr 1
    refine ownedIn_congr fun p _ => ?_
    by_cases hp : p ∈ block h k
    · rw [allocPages_of_mem hp, hfree p hp, PageState.allocated.injEq]
      exact ⟨fun e => absurd e.symm ho, PageState.noConfusion⟩
    · rw [allocPages_of_not_mem hp]

/-- Freeing a block of `owner` takes its pages from `owner`'s and leaves the other owners'
alone. -/
theorem card_ownedIn_freePages {m : Nat → PageState} {h k n : Nat} {owner : UInt8} (o : UInt8)
    (hfit : h + 2 ^ k ≤ n) (hown : ∀ p ∈ block h k, m p = .allocated owner) :
    (ownedIn n (freePages m h k) o).card + (if o = owner then 2 ^ k else 0) =
      (ownedIn n m o).card := by
  by_cases ho : o = owner
  · subst ho
    rw [if_pos rfl]
    refine (card_ownedIn_add hfit (fun p hp => ⟨hown p hp, ?_⟩)
      (fun p hp => (freePages_of_not_mem hp).symm)).symm
    rw [freePages_of_mem hp]
    exact PageState.noConfusion
  · rw [if_neg ho, Nat.add_zero]
    congr 1
    refine ownedIn_congr fun p _ => ?_
    by_cases hp : p ∈ block h k
    · rw [freePages_of_mem hp, hown p hp, PageState.allocated.injEq]
      exact ⟨PageState.noConfusion, fun e => absurd e.symm ho⟩
    · rw [freePages_of_not_mem hp]

/-! ## The page counters -/

/-- The zone's size and its page counters, `free_count` and `cached_order0_count`: the
numbers `Counted` relates to the page-set view. -/
def counts (a : PageAllocator) : Nat × UInt32 × UInt32 :=
  (a.totalPages, a.freeCount, a.cachedOrder0Count)

/-- The pages below `n` that `m` shows free or cached: what `free_count` counts. -/
def freeIn (n : Nat) (m : Nat → PageState) : Finset Nat :=
  (Finset.range n).filter fun p => m p = .free ∨ m p = .cached

/-- The pages below `n` that `m` shows cached: what `cached_order0_count` counts. -/
def cachedIn (n : Nat) (m : Nat → PageState) : Finset Nat :=
  (Finset.range n).filter fun p => m p = .cached

/-- **The counters count**: `free_count` the free and the cached pages of the zone,
`cached_order0_count` the cached ones. -/
structure Counted (a : PageAllocator) : Prop where
  free_count : a.freeCount.toNat = (freeIn a.totalPages (pageState a)).card
  cached_count : a.cachedOrder0Count.toNat = (cachedIn a.totalPages (pageState a)).card

theorem card_freeIn_le (n : Nat) (m : Nat → PageState) : (freeIn n m).card ≤ n :=
  (Finset.card_filter_le _ _).trans (Finset.card_range n).le

theorem card_cachedIn_le (n : Nat) (m : Nat → PageState) : (cachedIn n m).card ≤ n :=
  (Finset.card_filter_le _ _).trans (Finset.card_range n).le

/-- **The counters after one page moves** from its state to `s`: when each counter moves by
what the move does to the pages it counts, the counters stay exact. -/
theorem Counted.of_update {a a' : PageAllocator} {h : Nat} {s : PageState} (hc : Counted a)
    (hh : h < a.totalPages) (ht : a'.totalPages = a.totalPages)
    (htl : a.totalPages < 2 ^ 32) (hps : pageState a' = Function.update (pageState a) h s)
    (hf : a'.freeCount + (if pageState a h = .free ∨ pageState a h = .cached then 1 else 0) =
      a.freeCount + (if s = .free ∨ s = .cached then 1 else 0))
    (hcc : a'.cachedOrder0Count + (if pageState a h = .cached then 1 else 0) =
      a.cachedOrder0Count + (if s = .cached then 1 else 0)) : Counted a' := by
  have hfree := card_filter_update (P := fun x => x = PageState.free ∨ x = .cached)
    (m := pageState a) (s := s) hh
  have hcached := card_filter_update (P := fun x => x = PageState.cached)
    (m := pageState a) (s := s) hh
  have hfle := card_freeIn_le a.totalPages (pageState a')
  have hcle := card_cachedIn_le a.totalPages (pageState a')
  have hf' := congrArg UInt32.toNat hf
  have hcc' := congrArg UInt32.toNat hcc
  have hx := a'.freeCount.toNat_lt
  have hy := a'.cachedOrder0Count.toNat_lt
  have hc₁ := hc.free_count
  have hc₂ := hc.cached_count
  rw [hps] at hfle hcle
  simp only [UInt32.toNat_add] at hf' hcc'
  refine ⟨?_, ?_⟩ <;> rw [ht, hps] <;> simp only [freeIn, cachedIn] at hfle hcle hc₁ hc₂ ⊢
  · split_ifs at hfree hf' <;> simp only [UInt32.toNat_one, UInt32.toNat_zero] at hf' <;> omega
  · split_ifs at hcached hcc' <;> simp only [UInt32.toNat_one, UInt32.toNat_zero] at hcc' <;> omega

/-- `1U << k` for an order of the allocator. -/
theorem toNat_blockSize {k : Nat} (hk : k ≤ maxOrder) : (2 ^ k).toUInt32.toNat = 2 ^ k :=
  UInt32.toNat_ofNat_of_lt' (lt_of_le_of_lt (Nat.pow_le_pow_right (by decide) hk) (by decide))

/-- Allocating a block of free pages takes its pages from those `free_count` counts. -/
theorem card_freeIn_allocPages {m : Nat → PageState} {h k n : Nat} {owner : UInt8}
    (hfit : h + 2 ^ k ≤ n) (hfree : ∀ p ∈ block h k, m p = .free) :
    (freeIn n (allocPages m h k owner)).card + 2 ^ k = (freeIn n m).card := by
  refine (card_filter_of_block hfit (fun p hp => ⟨Or.inl (hfree p hp), ?_⟩)
    fun p hp => by rw [allocPages_of_not_mem hp]).symm
  rw [allocPages_of_mem hp]
  exact fun h => h.elim PageState.noConfusion PageState.noConfusion

theorem cachedIn_allocPages {m : Nat → PageState} {h k n : Nat} {owner : UInt8}
    (hfree : ∀ p ∈ block h k, m p = .free) : cachedIn n (allocPages m h k owner) = cachedIn n m := by
  refine Finset.filter_congr fun p _ => ?_
  by_cases hp : p ∈ block h k
  · rw [allocPages_of_mem hp, hfree p hp]
    exact ⟨PageState.noConfusion, PageState.noConfusion⟩
  · rw [allocPages_of_not_mem hp]

/-- Freeing an allocated block adds its pages to those `free_count` counts. -/
theorem card_freeIn_freePages {m : Nat → PageState} {h k n : Nat} {owner : UInt8}
    (hfit : h + 2 ^ k ≤ n) (hown : ∀ p ∈ block h k, m p = .allocated owner) :
    (freeIn n (freePages m h k)).card = (freeIn n m).card + 2 ^ k := by
  refine card_filter_of_block hfit (fun p hp => ⟨Or.inl (freePages_of_mem hp), ?_⟩)
    fun p hp => by rw [freePages_of_not_mem hp]
  rw [hown p hp]
  exact fun h => h.elim PageState.noConfusion PageState.noConfusion

theorem cachedIn_freePages {m : Nat → PageState} {h k n : Nat} {owner : UInt8}
    (hown : ∀ p ∈ block h k, m p = .allocated owner) : cachedIn n (freePages m h k) = cachedIn n m := by
  refine Finset.filter_congr fun p _ => ?_
  by_cases hp : p ∈ block h k
  · rw [freePages_of_mem hp, hown p hp]
    exact ⟨PageState.noConfusion, PageState.noConfusion⟩
  · rw [freePages_of_not_mem hp]

/-! ## Blocks -/

/-- Page `p` is as a free page keeps it: kind `FREE`, no owner, refcount zero. -/
structure PageFree (a : PageAllocator) (p : Nat) : Prop where
  kind : a.pageKinds p = .free
  owner : loadPageOwner (a.pageOwners p) = ownerInvalid
  refcount : a.pageRefcounts p = 0

/-- The block of order `k` at `h` is aligned, of order at most `MAX_ORDER`, and lies in
the usable part of the zone. -/
structure InZone (a : PageAllocator) (h k : Nat) : Prop where
  aligned : 2 ^ k ∣ h
  order_le : k ≤ maxOrder
  above_meta : a.metadataPages ≤ h
  fits : h + 2 ^ k ≤ a.totalPages

/-- The pages of the block of order `k` at `h` are free, and all but the head are
flagged as free interiors.  This is what a free block is apart from its head flag, and
what the block `alloc` splits or `free` merges is while it is in the hole. -/
structure FreeSpan (a : PageAllocator) (h k : Nat) : Prop extends InZone a h k where
  interior : ∀ p ∈ block h k, p ≠ h → a.pageFlags p = flagFreeInterior
  free : ∀ p ∈ block h k, PageFree a p

/-- A free block of order `k` at `h`. -/
structure FreeBlock (a : PageAllocator) (h k : Nat) : Prop extends FreeSpan a h k where
  head : a.pageFlags h = freeHeadFlag k

/-- A block of order `k` at `h` allocated to the owner `o`. -/
structure AllocBlock (a : PageAllocator) (h k : Nat) (o : UInt8) : Prop
    extends InZone a h k where
  head : a.pageFlags h = allocHeadFlag k
  interior : ∀ p ∈ block h k, p ≠ h → a.pageFlags p = flagAllocCont
  owner : ∀ p ∈ block h k, a.pageOwners p = o
  owner_valid : physicalPageOwnerIsValid o = true

/-- A block of the layout, free or allocated. -/
def Blk (a : PageAllocator) (h k : Nat) : Prop := FreeBlock a h k ∨ ∃ o, AllocBlock a h k o

section Blocks

variable {a a' : PageAllocator} {h h' k k' p : Nat}

theorem FreeBlock.blk (hb : FreeBlock a h k) : Blk a h k := Or.inl hb

theorem AllocBlock.blk {o : UInt8} (hb : AllocBlock a h k o) : Blk a h k := Or.inr ⟨o, hb⟩

theorem Blk.inZone (hb : Blk a h k) : InZone a h k := by
  rcases hb with hb | ⟨o, hb⟩
  · exact hb.toInZone
  · exact hb.toInZone

theorem Blk.head_flag (hb : Blk a h k) :
    a.pageFlags h = freeHeadFlag k ∨ a.pageFlags h = allocHeadFlag k := by
  rcases hb with hb | ⟨o, hb⟩
  · exact Or.inl hb.head
  · exact Or.inr hb.head

theorem Blk.interior_flag (hb : Blk a h k) (hp : p ∈ block h k) (hne : p ≠ h) :
    a.pageFlags p = flagFreeInterior ∨ a.pageFlags p = flagAllocCont := by
  rcases hb with hb | ⟨o, hb⟩
  · exact Or.inl (hb.interior p hp hne)
  · exact Or.inr (hb.interior p hp hne)

/-- No head of a block lies inside another block but at its head. -/
theorem Blk.head_eq (hb : Blk a h k) (hb' : Blk a h' k') (hmem : h' ∈ block h k) : h' = h := by
  by_contra hne
  have hk' := order_lt_32 hb'.inZone.order_le
  rcases hb.interior_flag hmem hne with hi | hi <;> rcases hb'.head_flag with hh | hh <;>
    rw [hh] at hi
  · exact freeHeadFlag_ne_interior hk' hi
  · exact allocHeadFlag_ne_interior hk' hi
  · exact freeHeadFlag_ne_cont hk' hi
  · exact allocHeadFlag_ne_cont hk' hi

/-- Two blocks at one head have one order. -/
theorem Blk.order_eq (hb : Blk a h k) (hb' : Blk a h k') : k = k' := by
  have hk := order_lt_32 hb.inZone.order_le
  have hk' := order_lt_32 hb'.inZone.order_le
  rcases hb.head_flag with hh | hh <;> rcases hb'.head_flag with hh' | hh' <;> rw [hh] at hh'
  · exact freeHeadFlag_inj hk hk' hh'
  · exact absurd hh' (freeHeadFlag_ne_allocHeadFlag hk hk')
  · exact absurd hh'.symm (freeHeadFlag_ne_allocHeadFlag hk' hk)
  · exact allocHeadFlag_inj hk hk' hh'

/-- **Two blocks of a layout are the same block or disjoint.** -/
theorem Blk.eq_or_disjoint (hb : Blk a h k) (hb' : Blk a h' k') :
    (h = h' ∧ k = k') ∨ Disjoint (block h k) (block h' k') := by
  by_cases hh : h' ∈ block h k
  · have he := hb.head_eq hb' hh
    subst he
    exact Or.inl ⟨rfl, hb.order_eq hb'⟩
  · by_cases hh' : h ∈ block h' k'
    · have he := hb'.head_eq hb hh'
      subst he
      exact Or.inl ⟨rfl, hb.order_eq hb'⟩
    · exact Or.inr (disjoint_of_heads hb.inZone.aligned hb'.inZone.aligned hh' hh)

/-- A block of the layout that holds `p` is disjoint from any other block that does not. -/
theorem Blk.disjoint_of_not_mem (hb : Blk a h k) (hb' : Blk a h' k') (hp : p ∈ block h k)
    (hp' : p ∉ block h' k') : Disjoint (block h k) (block h' k') := by
  rcases hb.eq_or_disjoint hb' with ⟨rfl, rfl⟩ | hd
  · exact absurd hp hp'
  · exact hd

/-- A page flagged cached lies in no block. -/
theorem Blk.not_mem_of_cached (hb : Blk a h k) (hc : a.pageFlags p = flagCachedOrder0) :
    p ∉ block h k := by
  intro hp
  have hk := order_lt_32 hb.inZone.order_le
  by_cases hne : p = h
  · subst hne
    rcases hb.head_flag with hh | hh <;> rw [hh] at hc
    · exact freeHeadFlag_ne_cached hk hc
    · exact allocHeadFlag_ne_cached hk hc
  · rcases hb.interior_flag hp hne with hi | hi <;> rw [hi] at hc <;> exact absurd hc (by decide)

/-- `a'` keeps `a`'s zone bounds, and its page tables at every page of `S`. -/
structure Agree (a a' : PageAllocator) (S : Set Nat) : Prop where
  meta_eq : a'.metadataPages = a.metadataPages
  total_eq : a'.totalPages = a.totalPages
  flags : ∀ p ∈ S, a'.pageFlags p = a.pageFlags p
  kinds : ∀ p ∈ S, a'.pageKinds p = a.pageKinds p
  owners : ∀ p ∈ S, a'.pageOwners p = a.pageOwners p
  refcounts : ∀ p ∈ S, a'.pageRefcounts p = a.pageRefcounts p

theorem Agree.mono {S T : Set Nat} (hag : Agree a a' S) (hT : T ⊆ S) : Agree a a' T :=
  ⟨hag.meta_eq, hag.total_eq, fun p hp => hag.flags p (hT hp), fun p hp => hag.kinds p (hT hp),
    fun p hp => hag.owners p (hT hp), fun p hp => hag.refcounts p (hT hp)⟩

theorem PageFree.congr {S : Set Nat} (hf : PageFree a p) (hag : Agree a a' S) (hp : p ∈ S) :
    PageFree a' p :=
  ⟨by rw [hag.kinds p hp]; exact hf.kind, by rw [hag.owners p hp]; exact hf.owner,
    by rw [hag.refcounts p hp]; exact hf.refcount⟩

theorem PageFree.of_tables (hf : PageFree a p) (hk : a'.pageKinds = a.pageKinds)
    (ho : a'.pageOwners = a.pageOwners) (hr : a'.pageRefcounts = a.pageRefcounts) :
    PageFree a' p :=
  ⟨by rw [hk]; exact hf.kind, by rw [ho]; exact hf.owner, by rw [hr]; exact hf.refcount⟩

theorem InZone.congr {S : Set Nat} (hz : InZone a h k) (hag : Agree a a' S) : InZone a' h k :=
  ⟨hz.aligned, hz.order_le, by rw [hag.meta_eq]; exact hz.above_meta,
    by rw [hag.total_eq]; exact hz.fits⟩

theorem FreeSpan.congr (hs : FreeSpan a h k) (hag : Agree a a' (block h k)) : FreeSpan a' h k :=
  ⟨hs.toInZone.congr hag, fun p hp hne => by rw [hag.flags p hp]; exact hs.interior p hp hne,
    fun p hp => (hs.free p hp).congr hag hp⟩

theorem FreeBlock.congr (hb : FreeBlock a h k) (hag : Agree a a' (block h k)) :
    FreeBlock a' h k :=
  ⟨hb.toFreeSpan.congr hag, by rw [hag.flags h (head_mem_block h k)]; exact hb.head⟩

theorem AllocBlock.congr {o : UInt8} (hb : AllocBlock a h k o) (hag : Agree a a' (block h k)) :
    AllocBlock a' h k o :=
  ⟨hb.toInZone.congr hag, by rw [hag.flags h (head_mem_block h k)]; exact hb.head,
    fun p hp hne => by rw [hag.flags p hp]; exact hb.interior p hp hne,
    fun p hp => by rw [hag.owners p hp]; exact hb.owner p hp, hb.owner_valid⟩

/-- The pages of a free span are free to a client. -/
theorem FreeSpan.pageState_eq (hs : FreeSpan a h k) (hhead : pageState a h = .free)
    (hp : p ∈ block h k) : pageState a p = .free := by
  by_cases hne : p = h
  · rw [hne]
    exact hhead
  · exact pageState_of_interior (hs.interior p hp hne)

theorem FreeBlock.pageState_eq (hb : FreeBlock a h k) (hp : p ∈ block h k) :
    pageState a p = .free :=
  hb.toFreeSpan.pageState_eq (pageState_of_freeHeadFlag (order_lt_32 hb.order_le) hb.head) hp

/-- The pages of a block allocated to `o` are allocated to `o`. -/
theorem AllocBlock.pageState_eq {o : UInt8} (hb : AllocBlock a h k o) (hp : p ∈ block h k) :
    pageState a p = .allocated o := by
  have ho : loadPageOwner (a.pageOwners p) = o := by
    rw [hb.owner p hp, loadPageOwner, if_pos hb.owner_valid]
  by_cases hne : p = h
  · subst hne
    rw [pageState_of_allocHeadFlag (order_lt_32 hb.order_le) hb.head, ho]
  · rw [pageState_of_cont (hb.interior p hp hne), ho]

end Blocks

/-! ## The layout -/

/-- Page `p` lies in a block of the layout that avoids the hole, or is a cached order-0
page. -/
inductive Placed (a : PageAllocator) (hole : Set Nat) (p : Nat) : Prop
  | free {h k : Nat} (hb : FreeBlock a h k) (hd : Disjoint (block h k) hole)
      (hp : p ∈ block h k)
  | alloc {h k : Nat} {o : UInt8} (hb : AllocBlock a h k o) (hd : Disjoint (block h k) hole)
      (hp : p ∈ block h k)
  | cached (hc : a.pageFlags p = flagCachedOrder0) (hf : PageFree a p)

/-- The allocated heads of the owner `o`. -/
def ownedHeads (a : PageAllocator) (o : UInt8) : Finset Nat :=
  (Finset.range a.totalPages).filter fun p =>
    a.pageFlags p &&& 0xC0 = flagAllocHead ∧ loadPageOwner (a.pageOwners p) = o

/-- The shape of the zone: the tables take the first pages, which are reserved. -/
structure ZoneShape (a : PageAllocator) : Prop where
  /-- The tables take at least one page: no block is at the zone's base. -/
  meta_pos : 0 < a.metadataPages
  meta_le : a.metadataPages ≤ a.totalPages
  /-- `total_pages` is a `uint32_t`. -/
  total_lt : a.totalPages < 2 ^ 32
  base_aligned : a.base % pageSize = 0
  reserved : ∀ p < a.metadataPages, a.pageFlags p = flagReserved

/-- **The allocator's invariant**, outside the pages of `hole`. -/
structure Layout (a : PageAllocator) (hole : Set Nat) : Prop extends ZoneShape a where
  placed : ∀ p, a.metadataPages ≤ p → p < a.totalPages → p ∉ hole → Placed a hole p
  nodup : ∀ k ≤ maxOrder, (a.freeList k).Nodup
  /-- `free_list[k]` holds exactly the free heads of order `k` outside the hole. -/
  listed : ∀ k ≤ maxOrder, ∀ ptr, ptr ∈ a.freeList k ↔
    ∃ h, ptr = pageToPtr a.base h ∧ h ∉ hole ∧ a.metadataPages ≤ h ∧ h < a.totalPages ∧
      a.pageFlags h = freeHeadFlag k
  owner_pages : ∀ o, physicalPageOwnerIsValid o = true →
    a.ownerPages o.toNat = (ownedIn a.totalPages (pageState a) o).card
  owner_objects : ∀ o, physicalPageOwnerIsValid o = true →
    a.ownerObjects o.toNat = (ownedHeads a o).card

/-- **A well-formed allocator**: its layout has no hole. -/
def WellFormed (a : PageAllocator) : Prop := Layout a ∅

theorem Agree.setCounts {a : PageAllocator} {S : Set Nat} (f c : UInt32) :
    Agree a { a with freeCount := f, cachedOrder0Count := c } S :=
  ⟨rfl, rfl, fun _ _ => rfl, fun _ _ => rfl, fun _ _ => rfl, fun _ _ => rfl⟩

/-! ## Addresses of pages -/

theorem ptrToPage_pageToPtr (base h : Nat) : ptrToPage base (pageToPtr base h) = h := by
  simp [ptrToPage, pageToPtr, pageSize]

theorem pageToPtr_inj {base h h' : Nat} (he : pageToPtr base h = pageToPtr base h') : h = h' := by
  rw [← ptrToPage_pageToPtr base h, he, ptrToPage_pageToPtr]

/-- Only page 0 is at the base; the tables take it, so no block's address is null. -/
theorem pageToPtr_ne_zero {base h : Nat} (hpos : 0 < h) : pageToPtr base h ≠ 0 := by
  have : 0 < h * pageSize := Nat.mul_pos hpos (by decide)
  unfold pageToPtr
  omega

theorem blockOverruns_eq_false {total p n : Nat} (hfit : p + n ≤ total) (ht : total < 2 ^ 32) :
    blockOverruns total p n = false := by
  rw [blockOverruns, Nat.mod_eq_of_lt (by omega)]
  simp only [decide_eq_false_iff_not, not_lt]
  exact hfit

theorem ptrInZone_pageToPtr {a : PageAllocator} {h : Nat} (hb : a.base % pageSize = 0)
    (hpos : 0 < h) (ht : h < a.totalPages) : ptrInZone a (pageToPtr a.base h) = true := by
  have hal : pageToPtr a.base h &&& (pageSize - 1) = 0 := by
    rw [show pageSize - 1 = 2 ^ 12 - 1 from rfl, Nat.and_two_pow_sub_one_eq_mod, pageToPtr,
      show (2 : Nat) ^ 12 = pageSize from rfl, Nat.add_mul_mod_self_right, hb]
  have hlt : pageToPtr a.base h < a.base + a.totalPages * pageSize := by
    unfold pageToPtr
    have := Nat.mul_lt_mul_of_pos_right ht (show 0 < pageSize by decide)
    omega
  have hne : pageToPtr a.base h ≠ 0 := pageToPtr_ne_zero hpos
  have hle : a.base ≤ pageToPtr a.base h := Nat.le_add_right _ _
  simp only [ptrInZone, ptrIsPageAligned, Bool.and_eq_true, bne_iff_ne, beq_iff_eq,
    decide_eq_true_eq]
  exact ⟨⟨⟨hne, hal⟩, hle⟩, hlt⟩

/-- A free head of order `k` inside the zone passes `free_head_is_valid`. -/
theorem freeHeadIsValid_pageToPtr {a : PageAllocator} {h k : Nat} (hb : a.base % pageSize = 0)
    (hpos : 0 < h) (hfit : h + 2 ^ k ≤ a.totalPages) (ht : a.totalPages < 2 ^ 32)
    (hf : a.pageFlags h = freeHeadFlag k) : freeHeadIsValid a (pageToPtr a.base h) k = true := by
  have hlt : h < a.totalPages := by have := Nat.one_le_two_pow (n := k); omega
  simp only [freeHeadIsValid, ptrInZone_pageToPtr hb hpos hlt, ptrToPage_pageToPtr,
    blockOverruns_eq_false hfit ht, hf, beq_self_eq_true, Bool.and_true, Bool.true_and,
    Bool.or_false, Bool.not_eq_true', decide_eq_false_iff_not, not_le]
  exact hlt

/-! ## Reading the layout -/

section Reading

variable {a : PageAllocator} {hole : Set Nat}

/-- A page outside the hole flagged as a free head of order `k` heads a free block of
order `k` that avoids the hole. -/
theorem Layout.head_free (hl : Layout a hole) {h k : Nat} (hm : a.metadataPages ≤ h)
    (ht : h < a.totalPages) (hh : h ∉ hole) (hk : k ≤ maxOrder)
    (hf : a.pageFlags h = freeHeadFlag k) : FreeBlock a h k ∧ Disjoint (block h k) hole := by
  have hk32 := order_lt_32 hk
  cases hl.placed h hm ht hh with
  | free hb hd hp =>
    rename_i h' k'
    have he : h = h' := by
      by_contra hne
      exact freeHeadFlag_ne_interior hk32 (hf ▸ hb.interior h hp hne)
    subst he
    have := freeHeadFlag_inj (order_lt_32 hb.order_le) hk32 (hb.head.symm.trans hf)
    subst this
    exact ⟨hb, hd⟩
  | alloc hb hd hp =>
    rename_i h' k' o
    by_cases he : h = h'
    · subst he
      exact absurd (hf.symm.trans hb.head) (freeHeadFlag_ne_allocHeadFlag hk32 (order_lt_32 hb.order_le))
    · exact absurd (hf ▸ hb.interior h hp he) (freeHeadFlag_ne_cont hk32)
  | cached hc => exact absurd (hf ▸ hc) (freeHeadFlag_ne_cached hk32)

/-- A page of the zone outside the hole flagged as an allocated head heads a block
allocated to some owner, of the order in its flag. -/
theorem Layout.head_alloc (hl : Layout a hole) {h : Nat} (ht : h < a.totalPages) (hh : h ∉ hole)
    (hf : a.pageFlags h &&& 0xC0 = flagAllocHead) :
    ∃ o, AllocBlock a h (a.pageFlags h &&& 0x1F).toNat o ∧ Disjoint (block h (a.pageFlags h &&& 0x1F).toNat) hole := by
  have hm : a.metadataPages ≤ h := by
    by_contra hlt
    rw [hl.reserved h (by omega)] at hf
    exact absurd hf (by decide)
  cases hl.placed h hm ht hh with
  | free hb hd hp =>
    rename_i h' k'
    have hk32 := order_lt_32 hb.order_le
    by_cases he : h = h'
    · subst he
      rw [hb.head, freeHeadFlag_and hk32] at hf
      exact absurd hf (by decide)
    · rw [hb.interior h hp he] at hf
      exact absurd hf (by decide)
  | alloc hb hd hp =>
    rename_i h' k' o
    have hk32 := order_lt_32 hb.order_le
    by_cases he : h = h'
    · subst he
      rw [hb.head, allocHeadFlag_order hk32]
      exact ⟨o, hb, hd⟩
    · rw [hb.interior h hp he] at hf
      exact absurd hf (by decide)
  | cached hc =>
    rw [hc] at hf
    exact absurd hf (by decide)

/-- A page of the zone outside the hole flagged `FLAG_ALLOC_HEAD` is a live block of order
0. -/
theorem Layout.allocBlock_of_flag (hl : Layout a hole) {h : Nat} (ht : h < a.totalPages)
    (hh : h ∉ hole) (hf : a.pageFlags h = flagAllocHead) : ∃ o, AllocBlock a h 0 o := by
  obtain ⟨o, hb, -⟩ := hl.head_alloc ht hh (by rw [hf]; decide)
  rw [hf, show (flagAllocHead &&& 0x1F).toNat = 0 by decide] at hb
  exact ⟨o, hb⟩

/-- Every listed address is the head of a free block of its order that avoids the hole. -/
theorem Layout.mem_freeList (hl : Layout a hole) {k ptr : Nat} (hk : k ≤ maxOrder)
    (hmem : ptr ∈ a.freeList k) :
    ∃ h, ptr = pageToPtr a.base h ∧ FreeBlock a h k ∧ Disjoint (block h k) hole ∧ h ∉ hole := by
  obtain ⟨h, rfl, hh, hm, ht, hf⟩ := (hl.listed k hk ptr).mp hmem
  obtain ⟨hb, hd⟩ := hl.head_free hm ht hh hk hf
  exact ⟨h, rfl, hb, hd, hh⟩

/-- Every listed address passes `free_head_is_valid`. -/
theorem Layout.valid_of_mem (hl : Layout a hole) {k ptr : Nat} (hk : k ≤ maxOrder)
    (hmem : ptr ∈ a.freeList k) : freeHeadIsValid a ptr k = true := by
  obtain ⟨h, rfl, hb, -, -⟩ := hl.mem_freeList hk hmem
  exact freeHeadIsValid_pageToPtr hl.base_aligned (Nat.lt_of_lt_of_le hl.meta_pos hb.above_meta)
    hb.fits hl.total_lt hb.head

/-- A page outside the hole flagged cached is kept as a free page is. -/
theorem Layout.cached_pageFree (hl : Layout a hole) {p : Nat} (hm : a.metadataPages ≤ p)
    (ht : p < a.totalPages) (hh : p ∉ hole) (hc : a.pageFlags p = flagCachedOrder0) :
    PageFree a p := by
  cases hl.placed p hm ht hh with
  | free hb _ hpb => exact absurd hpb (hb.blk.not_mem_of_cached hc)
  | alloc hb _ hpb => exact absurd hpb (hb.blk.not_mem_of_cached hc)
  | cached _ hf => exact hf

/-- Every free page of a well-formed zone lies in a free block whose head is listed. -/
theorem Layout.listed_of_free (hl : Layout a ∅) {p : Nat} (hm : a.metadataPages ≤ p)
    (ht : p < a.totalPages) (hp : pageState a p = .free) :
    ∃ h k, p ∈ block h k ∧ k ≤ maxOrder ∧ pageToPtr a.base h ∈ a.freeList k := by
  cases hl.placed p hm ht (Set.notMem_empty p) with
  | @free h k hb _ hpb =>
    have hlt : h < a.totalPages := by have := Nat.one_le_two_pow (n := k); have := hb.fits; omega
    exact ⟨h, k, hpb, hb.order_le,
      (hl.listed k hb.order_le _).mpr ⟨h, rfl, Set.notMem_empty h, hb.above_meta, hlt, hb.head⟩⟩
  | alloc hb _ hpb =>
    rw [hb.pageState_eq hpb] at hp
    exact PageState.noConfusion hp
  | cached hc =>
    rw [pageState, hc, if_neg (by decide), if_pos rfl] at hp
    exact PageState.noConfusion hp

end Reading

/-- **Frame**: a page placed by a block that the operation leaves alone (the block avoids
the pages `R` whose tables change) stays placed, for a new hole the block avoids. -/
theorem Placed.transfer {a a' : PageAllocator} {hole hole' R : Set Nat} {p : Nat}
    (hp : Placed a hole p) (hag : Agree a a' Rᶜ) (hpR : p ∉ R)
    (hR : ∀ h k, Blk a h k → Disjoint (block h k) hole → p ∈ block h k →
      Disjoint (block h k) R ∧ Disjoint (block h k) hole') :
    Placed a' hole' p := by
  cases hp with
  | free hb hd hpb =>
    obtain ⟨hdR, hd'⟩ := hR _ _ hb.blk hd hpb
    exact .free (hb.congr (hag.mono hdR.subset_compl_right)) hd' hpb
  | alloc hb hd hpb =>
    obtain ⟨hdR, hd'⟩ := hR _ _ hb.blk hd hpb
    exact .alloc (hb.congr (hag.mono hdR.subset_compl_right)) hd' hpb
  | cached hc hf => exact .cached (by rw [hag.flags p hpR]; exact hc) (hf.congr hag hpR)

/-- The zone keeps its shape when the pages whose tables change lie above the tables. -/
theorem ZoneShape.congr {a a' : PageAllocator} {R : Set Nat} (hz : ZoneShape a)
    (hag : Agree a a' Rᶜ) (hbase : a'.base = a.base) (hR : ∀ p ∈ R, a.metadataPages ≤ p) :
    ZoneShape a' where
  meta_pos := by rw [hag.meta_eq]; exact hz.meta_pos
  meta_le := by rw [hag.meta_eq, hag.total_eq]; exact hz.meta_le
  total_lt := by rw [hag.total_eq]; exact hz.total_lt
  base_aligned := by rw [hbase]; exact hz.base_aligned
  reserved p hp := by
    rw [hag.meta_eq] at hp
    have hpR : p ∉ R := fun hpR => absurd (hR p hpR) (Nat.not_le.mpr hp)
    rw [hag.flags p hpR]
    exact hz.reserved p hp

/-- **Frame for a whole layout**: a state whose tables change only at pages `R` of the hole,
above the tables, and that keeps the lists, the page-set view, the owners' heads and the
owner counters, is laid out with the same hole. -/
theorem Layout.congr {a a' : PageAllocator} {S R : Set Nat} (hl : Layout a S) (hR : R ⊆ S)
    (hag : Agree a a' Rᶜ) (hRm : ∀ p ∈ R, a.metadataPages ≤ p) (hbase : a'.base = a.base)
    (hlist : a'.freeList = a.freeList)
    (hown : ∀ o, ownedIn a.totalPages (pageState a') o = ownedIn a.totalPages (pageState a) o)
    (hheads : ∀ o, ownedHeads a' o = ownedHeads a o) (hpages : a'.ownerPages = a.ownerPages)
    (hobj : a'.ownerObjects = a.ownerObjects) : Layout a' S := by
  refine ⟨hl.toZoneShape.congr hag hbase hRm, fun p hm ht hp => ?_, fun k hk => ?_,
    fun k hk ptr => ?_, fun o ho => ?_, fun o ho => ?_⟩
  · rw [hag.meta_eq] at hm
    rw [hag.total_eq] at ht
    exact (hl.placed p hm ht hp).transfer hag (fun h' => hp (hR h')) fun _ _ _ hd _ =>
      ⟨hd.mono_right hR, hd⟩
  · rw [hlist]
    exact hl.nodup k hk
  · rw [hlist, hl.listed k hk ptr, hbase, hag.meta_eq, hag.total_eq]
    constructor
    · rintro ⟨x, rfl, hx, hm, ht, hf⟩
      exact ⟨x, rfl, hx, hm, ht, (hag.flags x fun h' => hx (hR h')).trans hf⟩
    · rintro ⟨x, rfl, hx, hm, ht, hf⟩
      exact ⟨x, rfl, hx, hm, ht, (hag.flags x fun h' => hx (hR h')).symm.trans hf⟩
  · rw [hpages, hag.total_eq, hown]
    exact hl.owner_pages o ho
  · rw [hobj, hheads]
    exact hl.owner_objects o ho

/-- The counters are no part of the layout. -/
theorem Layout.setCounts {a : PageAllocator} {hole : Set Nat} (hl : Layout a hole) (f c : UInt32) :
    Layout { a with freeCount := f, cachedOrder0Count := c } hole :=
  hl.congr (Set.empty_subset hole) (Agree.setCounts f c) (fun p hp => absurd hp (Set.notMem_empty p))
    rfl rfl (fun _ => rfl) (fun _ => rfl) rfl rfl

theorem Agree.refl (a : PageAllocator) (S : Set Nat) : Agree a a S :=
  ⟨rfl, rfl, fun _ _ => rfl, fun _ _ => rfl, fun _ _ => rfl, fun _ _ => rfl⟩

/-- **Closing the hole**: when every page of the hole is placed and none carries the flag
of a free head, the layout holds with no hole. -/
theorem Layout.close {a : PageAllocator} {S : Set Nat} (hl : Layout a S)
    (hplaced : ∀ p ∈ S, a.metadataPages ≤ p → p < a.totalPages → Placed a ∅ p)
    (hflags : ∀ p ∈ S, ∀ k ≤ maxOrder, a.pageFlags p ≠ freeHeadFlag k) : Layout a ∅ := by
  refine ⟨hl.toZoneShape, fun p hm ht _ => ?_, hl.nodup, fun k hk ptr => ?_, hl.owner_pages,
    hl.owner_objects⟩
  · by_cases hp : p ∈ S
    · exact hplaced p hp hm ht
    · exact (hl.placed p hm ht hp).transfer (Agree.refl a _) (Set.notMem_empty p)
        fun _ _ _ _ _ => ⟨Set.disjoint_empty _, Set.disjoint_empty _⟩
  · rw [hl.listed k hk ptr]
    constructor
    · rintro ⟨x, rfl, -, hm, ht, hf⟩
      exact ⟨x, rfl, Set.notMem_empty x, hm, ht, hf⟩
    · rintro ⟨x, rfl, -, hm, ht, hf⟩
      exact ⟨x, rfl, fun hx => hflags x hx k hk hf, hm, ht, hf⟩

/-- **Opening a hole** at pages that no block of the layout holds and that carry no free
head's flag. -/
theorem Layout.openHole {a : PageAllocator} {S : Set Nat} (hl : Layout a ∅)
    (hout : ∀ p ∈ S, ∀ H K, Blk a H K → p ∉ block H K)
    (hflags : ∀ p ∈ S, ∀ k ≤ maxOrder, a.pageFlags p ≠ freeHeadFlag k) : Layout a S := by
  refine ⟨hl.toZoneShape, fun p hm ht _ => ?_, hl.nodup, fun k hk ptr => ?_, hl.owner_pages,
    hl.owner_objects⟩
  · exact (hl.placed p hm ht (Set.notMem_empty p)).transfer (Agree.refl a _)
      (Set.notMem_empty p) fun H K hB _ _ =>
        ⟨Set.disjoint_empty _, Set.disjoint_right.mpr fun q hq => hout q hq H K hB⟩
  · rw [hl.listed k hk ptr]
    constructor
    · rintro ⟨x, rfl, -, hm, ht, hf⟩
      exact ⟨x, rfl, fun hx => hflags x hx k hk hf, hm, ht, hf⟩
    · rintro ⟨x, rfl, -, hm, ht, hf⟩
      exact ⟨x, rfl, Set.notMem_empty x, hm, ht, hf⟩

/-- A flag byte of a free page: a free interior or a free head. -/
def FreeFlag (f : UInt8) : Prop := f = flagFreeInterior ∨ ∃ k ≤ maxOrder, f = freeHeadFlag k

theorem FreeFlag.pageState {a : PageAllocator} {p : Nat} (hf : FreeFlag (a.pageFlags p)) :
    pageState a p = .free := by
  rcases hf with hf | ⟨k, hk, hf⟩
  · exact pageState_of_interior hf
  · exact pageState_of_freeHeadFlag (order_lt_32 hk) hf

theorem FreeFlag.not_allocHead {f : UInt8} (hf : FreeFlag f) : ¬ f &&& 0xC0 = flagAllocHead := by
  rcases hf with rfl | ⟨k, hk, rfl⟩
  · decide
  · rw [freeHeadFlag_and (order_lt_32 hk)]
    decide

/-- Turning free flag bytes into other free flag bytes changes nothing a client sees, nor
any owner's heads. -/
theorem pageState_eq_of_freeFlags {a a' : PageAllocator}
    (hf : ∀ p, a'.pageFlags p = a.pageFlags p ∨ (FreeFlag (a.pageFlags p) ∧ FreeFlag (a'.pageFlags p)))
    (ho : a'.pageOwners = a.pageOwners) : pageState a' = pageState a := by
  funext p
  rcases hf p with hp | ⟨hp, hp'⟩
  · simp only [pageState, hp, ho]
  · rw [hp.pageState, hp'.pageState]

theorem ownedHeads_eq_of_freeFlags {a a' : PageAllocator}
    (hf : ∀ p, a'.pageFlags p = a.pageFlags p ∨ (FreeFlag (a.pageFlags p) ∧ FreeFlag (a'.pageFlags p)))
    (ho : a'.pageOwners = a.pageOwners) (ht : a'.totalPages = a.totalPages) (o : UInt8) :
    ownedHeads a' o = ownedHeads a o := by
  ext p
  simp only [ownedHeads, Finset.mem_filter, Finset.mem_range, ht, ho]
  rcases hf p with hp | ⟨hp, hp'⟩
  · rw [hp]
  · simp only [hp.not_allocHead, hp'.not_allocHead, false_and, and_false]

/-! ## The list operations on a well-linked list

When every entry of `free_list[k]` passes `free_head_is_valid`, as in every layout, the
list operations do what their names say and never repair. -/

/-- Every entry of every free list passes `free_head_is_valid`. -/
def ListsValid (a : PageAllocator) : Prop :=
  ∀ k ≤ maxOrder, ∀ x ∈ a.freeList k, freeHeadIsValid a x k = true

theorem Layout.listsValid {a : PageAllocator} {hole : Set Nat} (hl : Layout a hole) :
    ListsValid a :=
  fun _ hk _ hmem => hl.valid_of_mem hk hmem

section Lists

variable {a : PageAllocator} {k ptr : Nat}

theorem removeFreeBlock_of_valid (hmem : ptr ∈ a.freeList k)
    (hv : ∀ x ∈ a.freeList k, freeHeadIsValid a x k = true) :
    removeFreeBlock a k ptr = some (a.setFreeList k ((a.freeList k).erase ptr)) := by
  obtain ⟨i, hi⟩ : ∃ i, (a.freeList k).idxOf? ptr = some i :=
    Option.isSome_iff_exists.mp (List.isSome_idxOf?.mpr hmem)
  obtain ⟨hlt, -, -⟩ := List.idxOf?_eq_some_iff.mp hi
  have herase : (a.freeList k).erase ptr = (a.freeList k).eraseIdx i := by
    rw [List.erase_eq_eraseIdx, hi]
  have hprev : (i == 0 || freeHeadIsValid a ((a.freeList k).getD (i - 1) 0) k) = true := by
    by_cases h0 : i = 0
    · simp [h0]
    · rw [List.getD_eq_getElem _ _ (by omega), hv _ (List.getElem_mem _), Bool.or_true]
  have hnext : (decide ((a.freeList k).length ≤ i + 1) ||
      freeHeadIsValid a ((a.freeList k).getD (i + 1) 0) k) = true := by
    by_cases hn : i + 1 < (a.freeList k).length
    · rw [List.getD_eq_getElem _ _ hn, hv _ (List.getElem_mem _), Bool.or_true]
    · simp only [Bool.or_eq_true, decide_eq_true_eq]
      exact Or.inl (by omega)
  unfold removeFreeBlock
  simp only [if_pos (hv ptr hmem), hi, hprev, hnext, Bool.and_self, if_true, herase]

theorem removeFreeBlockWithRepair_of_valid (hmem : ptr ∈ a.freeList k)
    (hv : ∀ x ∈ a.freeList k, freeHeadIsValid a x k = true) :
    removeFreeBlockWithRepair a k ptr = .ok (true, a.setFreeList k ((a.freeList k).erase ptr)) := by
  rw [removeFreeBlockWithRepair, removeFreeBlock_of_valid hmem hv]

theorem insertFreeBlock_of_valid (hv : ∀ x ∈ a.freeList k, freeHeadIsValid a x k = true) :
    insertFreeBlock a k ptr = .ok (linkFreeBlockUnchecked a k ptr) := by
  unfold insertFreeBlock
  split
  · rename_i x xs hl
    rw [if_pos (hv x (by rw [hl]; exact List.mem_cons_self ..))]
  · rfl

/-- The pages of a free block pass `free_block_pages_are_reusable`. -/
theorem freeBlockPagesAreReusable_of_freeBlock {h : Nat} (hb : FreeBlock a h k)
    (ht : a.totalPages < 2 ^ 32) : freeBlockPagesAreReusable a h k = .ok true := by
  have hk : ¬ maxOrder < k := Nat.not_lt.mpr hb.order_le
  have hpos := Nat.one_le_two_pow (n := k)
  have hlt : decide (a.totalPages ≤ h) = false := by
    simp only [decide_eq_false_iff_not, not_le]
    have := hb.fits
    omega
  have hall : (List.range (2 ^ k)).all (freePageIsReusable a h k) = true := by
    rw [List.all_eq_true]
    intro i hi
    rw [List.mem_range] at hi
    have hp : h + i ∈ block h k := mem_block.mpr ⟨by omega, by omega⟩
    have hf := hb.free _ hp
    simp only [freePageIsReusable, Bool.and_eq_true, beq_iff_eq, hf.kind, hf.owner,
      hf.refcount, and_true]
    split_ifs with hi0
    · rw [hi0, Nat.add_zero]
      exact hb.head
    · exact hb.interior _ hp (by omega)
  rw [freeBlockPagesAreReusable, if_neg hk, hlt, blockOverruns_eq_false hb.fits ht, Bool.or_false,
    if_neg Bool.false_ne_true, if_pos hall]

end Lists

end Wos.PageAlloc
