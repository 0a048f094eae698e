import WosKernel.PageAllocBlocks
import WosKernel.PageAllocInit
import WosKernel.Lib.StepRun

/-! # The zone as a system

A zone's clients reach it through twelve entry points: the buddy `alloc` and `free`, the
order-0 fast path, the order-0 cache of the per-CPU page caches, the range free of the
page cache, and the calls that retag, split or hand over a live block (`Op`).  A run is
any sequence of them (`runOps`); a panic stops it, as it stops the kernel.

What the entry points are for is a machine over the page-set view alone (`PageMove`):
an aligned block of free pages is allocated to a valid owner, the pages of a block of one
owner are freed or go to another valid owner, a free or allocated page is set aside in
the cache and leaves it free or allocated, a range of allocated pages is freed, or nothing
changes.  A move only ever turns a managed page (free, cached or allocated) into another
(`PageMove.confined`), so a reserved page stays reserved along every run.

On a well-formed allocator with exact counters each entry point, with a valid owner where
it takes one, panics on a live kmalloc header or is one move of the machine and keeps the
layout and the counters exact (`Op.apply_outcome`).  By the invariant rule of runs, every
run refines a run of the machine (`runOps_outcome`); a run from `init` never hands out,
frees or caches a page of the zone's metadata (`init_runOps_refines`).
-/

namespace Wos.PageAlloc

open Buddy StepRun Relation

/-! ## The page-set machine -/

/-- The pages the allocator manages: free, cached or allocated, not reserved or corrupt. -/
def PageState.isManaged : PageState → Bool
  | .free | .cached | .allocated _ => true
  | .reserved | .corrupt => false

/-- **The page-set machine**: what one entry point may do to what a client sees of the
zone's pages. -/
inductive PageMove (m : Nat → PageState) : (Nat → PageState) → Prop
  /-- Nothing changes. -/
  | stay : PageMove m m
  /-- An aligned block of free pages is allocated to a valid owner. -/
  | alloc {h k : Nat} (owner : UInt8) (haligned : 2 ^ k ∣ h)
      (hfree : ∀ p ∈ block h k, m p = .free) (hown : physicalPageOwnerIsValid owner = true) :
      PageMove m (allocPages m h k owner)
  /-- The pages of a block of one owner are freed. -/
  | free {h k : Nat} {o : UInt8} (hheld : ∀ p ∈ block h k, m p = .allocated o) :
      PageMove m (freePages m h k)
  /-- The pages of a block of one owner go to a valid owner. -/
  | reown {h k : Nat} {o : UInt8} (owner : UInt8) (hheld : ∀ p ∈ block h k, m p = .allocated o)
      (hown : physicalPageOwnerIsValid owner = true) :
      PageMove m (allocPages m h k owner)
  /-- A free or allocated page is set aside in the cache. -/
  | cache {h : Nat} (hlive : m h = .free ∨ ∃ o, m h = .allocated o) :
      PageMove m (Function.update m h .cached)
  /-- A cached page leaves the cache free. -/
  | uncacheFree {h : Nat} (hc : m h = .cached) : PageMove m (Function.update m h .free)
  /-- A cached page leaves the cache allocated to a valid owner. -/
  | uncacheAlloc {h : Nat} (owner : UInt8) (hc : m h = .cached)
      (hown : physicalPageOwnerIsValid owner = true) :
      PageMove m (Function.update m h (.allocated owner))
  /-- A range of allocated pages, of any owners, is freed. -/
  | freeRange {lo n : Nat} (hheld : ∀ p, lo ≤ p → p < lo + n → ∃ o, m p = .allocated o) :
      PageMove m (fillRange m lo n .free)

section Machine

variable {m m' : Nat → PageState} {p : Nat}

theorem isManaged_of_allocated {s : PageState} (h : ∃ o, s = .allocated o) :
    s.isManaged = true := by
  obtain ⟨o, rfl⟩ := h
  rfl

/-- A page that a move writes `v` to, on a condition under which what stood there was
managed: if the page changed, both values are managed. -/
theorem managed_of_write {c : Prop} [Decidable c] {v : PageState}
    (hw : m' p = if c then v else m p) (hv : v.isManaged = true)
    (hold : c → (m p).isManaged = true) (hne : m' p ≠ m p) :
    (m p).isManaged = true ∧ (m' p).isManaged = true := by
  rw [hw] at hne ⊢
  by_cases hc : c
  · rw [if_pos hc]
    exact ⟨hold hc, hv⟩
  · rw [if_neg hc] at hne
    exact absurd rfl hne

/-- **The machine only moves managed pages**, and only to managed states. -/
theorem PageMove.confined : Confined (fun s : PageState => s.isManaged = true) PageMove := by
  intro m m' hm p hne
  cases hm with
  | stay => exact absurd rfl hne
  | alloc owner _ hfree _ =>
    exact managed_of_write rfl rfl (fun hp => by rw [hfree p hp]; rfl) hne
  | free hheld => exact managed_of_write rfl rfl (fun hp => by rw [hheld p hp]; rfl) hne
  | reown owner hheld _ =>
    exact managed_of_write rfl rfl (fun hp => by rw [hheld p hp]; rfl) hne
  | cache hlive =>
    refine managed_of_write (Function.update_apply ..) rfl (fun hp => ?_) hne
    subst hp
    rcases hlive with h | h
    · rw [h]; rfl
    · exact isManaged_of_allocated h
  | uncacheFree hc =>
    exact managed_of_write (Function.update_apply ..) rfl (fun hp => by subst hp; rw [hc]; rfl) hne
  | uncacheAlloc owner hc _ =>
    exact managed_of_write (Function.update_apply ..) rfl (fun hp => by subst hp; rw [hc]; rfl) hne
  | freeRange hheld =>
    exact managed_of_write (fillRange_apply ..) rfl
      (fun hp => isManaged_of_allocated (hheld p hp.1 hp.2)) hne

/-- Along a run of the machine a page it does not manage keeps its state. -/
theorem PageMove.run_eq_of_unmanaged (hr : ReflTransGen PageMove m m')
    (hp : (m p).isManaged = false) : m' p = m p :=
  PageMove.confined.eq_of_not_left hr (by rw [hp]; decide)

end Machine

/-! ## The entry points -/

/-- An entry point of the zone, with its arguments. -/
inductive Op
  | alloc (sizeBytes : Nat) (owner : UInt8)
  | free (ptr : Nat)
  | allocOrder0 (owner : UInt8)
  | claimFreeOrder0ForCache
  | cacheAllocatedOrder0 (ptr : Nat)
  | allocCachedOrder0At (pageIdx : Nat) (owner : UInt8)
  | releaseCachedOrder0At (pageIdx : Nat)
  | freeOrder0At (pageIdx : Nat)
  | freeOrder0RangeAt (pageIdx pageCount : Nat)
  | markAllocatedBlockKind (ptr : Nat) (kind : PageKind)
  | splitAllocatedBlockToOrder0 (ptr : Nat)
  | reassignAllocatedBlockOwner (ptr : Nat) (owner : UInt8)
deriving DecidableEq, Repr

/-- The allocator after one entry point, or its panic; what it answers is dropped. -/
def Op.apply : Op → PageAllocator → Except String PageAllocator
  | .alloc sizeBytes owner, a => Prod.snd <$> PageAlloc.alloc a sizeBytes owner
  | .free ptr, a => Prod.snd <$> PageAlloc.free a ptr
  | .allocOrder0 owner, a => Prod.snd <$> PageAlloc.allocOrder0 a owner
  | .claimFreeOrder0ForCache, a => Prod.snd <$> PageAlloc.claimFreeOrder0ForCache a
  | .cacheAllocatedOrder0 ptr, a => Prod.snd <$> PageAlloc.cacheAllocatedOrder0 a ptr
  | .allocCachedOrder0At pageIdx owner, a =>
    Prod.snd <$> PageAlloc.allocCachedOrder0At a pageIdx owner
  | .releaseCachedOrder0At pageIdx, a => Prod.snd <$> PageAlloc.releaseCachedOrder0At a pageIdx
  | .freeOrder0At pageIdx, a => Prod.snd <$> PageAlloc.freeOrder0At a pageIdx
  | .freeOrder0RangeAt pageIdx pageCount, a =>
    Prod.snd <$> PageAlloc.freeOrder0RangeAt a pageIdx pageCount
  | .markAllocatedBlockKind ptr kind, a => .ok (PageAlloc.markAllocatedBlockKind a ptr kind).2
  | .splitAllocatedBlockToOrder0 ptr, a => .ok (PageAlloc.splitAllocatedBlockToOrder0 a ptr).2
  | .reassignAllocatedBlockOwner ptr owner, a =>
    Prod.snd <$> PageAlloc.reassignAllocatedBlockOwner a ptr owner

/-- An entry point that charges pages to the owner it is given is given one that
`physical_page_owner_is_valid` accepts: `account_owner_alloc` panics on any other. -/
def Op.ownerValid : Op → Bool
  | .alloc _ owner | .allocOrder0 owner | .allocCachedOrder0At _ owner =>
    physicalPageOwnerIsValid owner
  | _ => true

/-- The entry points one after the other, up to the first panic. -/
def runOps (ops : List Op) (a : PageAllocator) : Except String PageAllocator :=
  StepRun.run Op.apply ops a

/-! ## What one entry point does -/

/-- The invariant of the zone: the layout holds and the counters are exact. -/
structure Sound (a : PageAllocator) : Prop where
  wf : WellFormed a
  counted : Counted a

/-- The panics of the zone: `free` of a page whose kmalloc header is live. -/
def KmallocPanic (e : String) : Prop :=
  e = "page_free called on live kmalloc medium alloc" ∨
    e = "page_free called on live kmalloc large alloc"

/-- One move of the page-set machine, as the allocators' page-set views see it. -/
def Moves (a a' : PageAllocator) : Prop := PageMove (pageState a) (pageState a')

section Step

variable {a a' : PageAllocator} {β : Type} {x : Except String (β × PageAllocator)} {r : β}

theorem moves_of_pageState_eq (h : pageState a' = pageState a) : Moves a a' := by
  rw [Moves, h]
  exact .stay

theorem outcome_of_ok (hx : x = .ok (r, a')) (hs : Sound a') (hm : Moves a a') :
    Outcome Sound KmallocPanic Moves a (Prod.snd <$> x) := by
  rw [hx, Except.map_ok]
  exact outcome_ok.mpr ⟨hs, hm⟩

theorem outcome_of_stay (hx : x = .ok (r, a)) (hs : Sound a) :
    Outcome Sound KmallocPanic Moves a (Prod.snd <$> x) :=
  outcome_of_ok hx hs .stay

theorem outcome_of_panic {e : String} (hx : x = .error e) (he : KmallocPanic e) :
    Outcome Sound KmallocPanic Moves a (Prod.snd <$> x) := by
  rw [hx, Except.map_error]
  exact outcome_error.mpr he

variable {h k : Nat} {o owner : UInt8}

/-- An allocation of a block is an `alloc` move. -/
theorem Allocated.outcome (hA : Allocated a a' h k owner) (hc : Counted a)
    (hx : x = .ok (r, a')) : Outcome Sound KmallocPanic Moves a (Prod.snd <$> x) := by
  refine outcome_of_ok hx ⟨hA.wf, hc.allocated hA⟩ ?_
  rw [Moves, hA.pageState_eq]
  exact .alloc owner hA.inZone.aligned hA.was_free hA.allocBlock.owner_valid

/-- A free of a live block is a `free` move. -/
theorem Freed.outcome (hF : Freed a a' h k) (hb : AllocBlock a h k o) (hc : Counted a)
    (hx : x = .ok (r, a')) : Outcome Sound KmallocPanic Moves a (Prod.snd <$> x) := by
  refine outcome_of_ok hx ⟨hF.wf, hc.freed hb.ownedSpan hF⟩ ?_
  rw [Moves, hF.pageState_eq]
  exact .free fun p hp => hb.pageState_eq hp

/-- A free of a range that passed the checks is a `freeRange` move. -/
theorem RangeFreed.outcome {lo n : Nat} (hR : RangeFreed a a' lo n)
    (hok : ∀ p, lo ≤ p → p < lo + n → RangePageOk a p) (hx : x = .ok (r, a')) :
    Outcome Sound KmallocPanic Moves a (Prod.snd <$> x) := by
  refine outcome_of_ok hx ⟨hR.wf, hR.counted⟩ ?_
  rw [Moves, hR.pageState_eq]
  exact .freeRange fun p hp₁ hp₂ => ⟨_, pageState_of_allocHeadFlag (by decide)
    ((hok p hp₁ hp₂).1.trans flagAllocHead_eq)⟩

variable (hs : Sound a)
include hs

theorem alloc_outcome (hown : physicalPageOwnerIsValid owner = true) (s : Nat) :
    Outcome Sound KmallocPanic Moves a (Prod.snd <$> alloc a s owner) := by
  cases hord : sizeToOrder s with
  | none => exact outcome_of_stay (by rw [alloc, hord]) hs
  | some order =>
    rcases alloc_spec hs.wf hown hord with ⟨-, h0⟩ | ⟨-, h, a', hres, hA⟩
    · exact outcome_of_stay h0 hs
    · exact hA.outcome hs.counted hres

theorem free_outcome (ptr : Nat) :
    Outcome Sound KmallocPanic Moves a (Prod.snd <$> free a ptr) := by
  by_cases hlive : ∃ h k o, ptr = pageToPtr a.base h ∧ AllocBlock a h k o
  · obtain ⟨h, k, o, rfl, hb⟩ := hlive
    rw [free_of_head hs.wf hb]
    split_ifs
    · exact outcome_of_panic rfl (.inl rfl)
    · exact outcome_of_panic rfl (.inr rfl)
    · exact outcome_of_stay rfl hs
    · exact outcome_of_stay rfl hs
    · obtain ⟨a', hres, hF, -⟩ := freeAllocatedBlock_of_ownedSpan hs.wf hb.ownedSpan
      exact hF.outcome hb hs.counted hres
  · exact outcome_of_stay (free_of_not_live hs.wf fun h k o hp hb => hlive ⟨h, k, o, hp, hb⟩) hs

theorem allocOrder0_outcome (hown : physicalPageOwnerIsValid owner = true) :
    Outcome Sound KmallocPanic Moves a (Prod.snd <$> allocOrder0 a owner) := by
  rcases allocOrder0_spec hs.wf hown with ⟨-, h0⟩ | ⟨-, h, a', hres, hA⟩
  · exact outcome_of_stay h0 hs
  · exact hA.outcome hs.counted hres

theorem claimFreeOrder0ForCache_outcome :
    Outcome Sound KmallocPanic Moves a (Prod.snd <$> claimFreeOrder0ForCache a) := by
  rcases claimFreeOrder0ForCache_spec hs.wf hs.counted with
    ⟨-, h0⟩ | ⟨h, a', hres, hfree, hl', hc', hps, -⟩
  · exact outcome_of_stay h0 hs
  · refine outcome_of_ok hres ⟨hl', hc'⟩ ?_
    rw [Moves, hps]
    exact .cache (.inl hfree)

theorem cacheAllocatedOrder0_outcome (ptr : Nat) :
    Outcome Sound KmallocPanic Moves a (Prod.snd <$> cacheAllocatedOrder0 a ptr) := by
  rcases cacheAllocatedOrder0_spec hs.wf hs.counted ptr with
    h0 | hmed | hlarge | ⟨h, o, a', -, hb, hres, hl', hc', hps, -⟩
  · exact outcome_of_stay h0 hs
  · exact outcome_of_panic hmed (.inl rfl)
  · exact outcome_of_panic hlarge (.inr rfl)
  · refine outcome_of_ok hres ⟨hl', hc'⟩ ?_
    rw [Moves, hps]
    exact .cache (.inr ⟨o, hb.pageState_eq (head_mem_block h 0)⟩)

theorem allocCachedOrder0At_outcome (hown : physicalPageOwnerIsValid owner = true) (h : Nat) :
    Outcome Sound KmallocPanic Moves a (Prod.snd <$> allocCachedOrder0At a h owner) := by
  by_cases hcached : h < a.totalPages ∧ a.pageFlags h = flagCachedOrder0
  · obtain ⟨a', hres, hl', hc', -, hps, -⟩ :=
      allocCachedOrder0At_spec hs.wf hs.counted hown hcached.1 hcached.2
    refine outcome_of_ok hres ⟨hl', hc'⟩ ?_
    rw [Moves, hps]
    exact .uncacheAlloc owner (pageState_eq_cached_iff.mpr hcached.2) hown
  · exact outcome_of_stay (allocCachedOrder0At_of_not_cached
      ((not_and_or.mp hcached).imp Nat.not_lt.mp id)) hs

theorem releaseCachedOrder0At_outcome (h : Nat) :
    Outcome Sound KmallocPanic Moves a (Prod.snd <$> releaseCachedOrder0At a h) := by
  by_cases hcached : h < a.totalPages ∧ a.pageFlags h = flagCachedOrder0
  · obtain ⟨a', hres, hl', hc', hps, -⟩ :=
      releaseCachedOrder0At_spec hs.wf hs.counted hcached.1 hcached.2
    refine outcome_of_ok hres ⟨hl', hc'⟩ ?_
    rw [Moves, hps]
    exact .uncacheFree (pageState_eq_cached_iff.mpr hcached.2)
  · exact outcome_of_stay (releaseCachedOrder0At_of_not_cached
      ((not_and_or.mp hcached).imp Nat.not_lt.mp id)) hs

theorem freeOrder0At_outcome (h : Nat) :
    Outcome Sound KmallocPanic Moves a (Prod.snd <$> freeOrder0At a h) := by
  rcases freeOrder0At_spec hs.wf hs.counted h with
    h0 | hmed | hlarge | ⟨o, a', hb, hres, hF, -⟩
  · exact outcome_of_stay h0 hs
  · exact outcome_of_panic hmed (.inl rfl)
  · exact outcome_of_panic hlarge (.inr rfl)
  · exact hF.outcome hb hs.counted hres

theorem freeOrder0RangeAt_outcome (pageIdx pageCount : Nat) :
    Outcome Sound KmallocPanic Moves a (Prod.snd <$> freeOrder0RangeAt a pageIdx pageCount) := by
  rcases freeOrder0RangeAt_spec hs.wf hs.counted pageIdx pageCount with
    h0 | hmed | hlarge | ⟨a', hres, hok, hR⟩
  · exact outcome_of_stay h0 hs
  · exact outcome_of_panic hmed (.inl rfl)
  · exact outcome_of_panic hlarge (.inr rfl)
  · exact hR.outcome hok hres

theorem reassignAllocatedBlockOwner_outcome (ptr : Nat) (owner : UInt8) :
    Outcome Sound KmallocPanic Moves a
      (Prod.snd <$> reassignAllocatedBlockOwner a ptr owner) := by
  rcases reassignAllocatedBlockOwner_spec hs.wf hs.counted ptr owner with
    h0 | ⟨h, k, o, a', hb, hown, hres, hl', hc', hps⟩
  · exact outcome_of_stay h0 hs
  · refine outcome_of_ok hres ⟨hl', hc'⟩ ?_
    rw [Moves, hps]
    exact .reown owner (fun p hp => hb.pageState_eq hp) hown

/-- **Every entry point is safe on a sound zone**: given a valid owner where it stores
one unchecked, it panics on a live kmalloc header, or it keeps the layout and the
counters exact and moves the page-set view by one move of the machine. -/
theorem Op.apply_outcome {op : Op} (hv : op.ownerValid = true) :
    Outcome Sound KmallocPanic Moves a (op.apply a) := by
  cases op with
  | alloc s owner => exact alloc_outcome hs hv s
  | free ptr => exact free_outcome hs ptr
  | allocOrder0 owner => exact allocOrder0_outcome hs hv
  | claimFreeOrder0ForCache => exact claimFreeOrder0ForCache_outcome hs
  | cacheAllocatedOrder0 ptr => exact cacheAllocatedOrder0_outcome hs ptr
  | allocCachedOrder0At h owner => exact allocCachedOrder0At_outcome hs hv h
  | releaseCachedOrder0At h => exact releaseCachedOrder0At_outcome hs h
  | freeOrder0At h => exact freeOrder0At_outcome hs h
  | freeOrder0RangeAt pageIdx pageCount => exact freeOrder0RangeAt_outcome hs pageIdx pageCount
  | markAllocatedBlockKind ptr kind =>
    obtain ⟨hl', hc', hps⟩ := markAllocatedBlockKind_spec hs.wf hs.counted ptr kind
    exact outcome_ok.mpr ⟨⟨hl', hc'⟩, moves_of_pageState_eq hps⟩
  | splitAllocatedBlockToOrder0 ptr =>
    obtain ⟨hl', hc', hps⟩ := splitAllocatedBlockToOrder0_spec hs.wf hs.counted ptr
    exact outcome_ok.mpr ⟨⟨hl', hc'⟩, moves_of_pageState_eq hps⟩
  | reassignAllocatedBlockOwner ptr owner => exact reassignAllocatedBlockOwner_outcome hs ptr owner

end Step

/-! ## Runs -/

section Runs

/-- **Every run on a sound zone refines a run of the page-set machine**: it panics on a
live kmalloc header, or it ends in a sound zone reached by moves of the machine. -/
theorem runOps_outcome (ops : List Op) (a : PageAllocator) (hv : ∀ op ∈ ops, op.ownerValid = true)
    (hs : Sound a) : Outcome Sound KmallocPanic (ReflTransGen Moves) a (runOps ops a) :=
  run_outcome (fun op => op.ownerValid = true) (fun _ _ hv hs => Op.apply_outcome hs hv) ops a hv hs

theorem Moves.pageMoves {a a' : PageAllocator} (h : ReflTransGen Moves a a') :
    ReflTransGen PageMove (pageState a) (pageState a') :=
  ReflTransGen.lift pageState (fun _ _ hm => hm) a a' h

variable {zoneBase totalPages metadataPages : Nat} (word16 : Nat → UInt64)

/-- **Every run of the entry points from `init`**, with valid owners, panics on a live
kmalloc header or ends in a well-formed allocator with exact counters whose page-set view
a run of the page-set machine reaches from the fresh zone's, and in which the metadata
pages are still reserved. -/
theorem init_runOps_refines (hmeta : 0 < metadataPages) (hlt : metadataPages < totalPages)
    (hbase : zoneBase % pageSize = 0) (hwrap : totalPages + 2 ^ maxOrder ≤ 2 ^ 32)
    (ops : List Op) (hv : ∀ op ∈ ops, op.ownerValid = true) :
    ∃ a, init zoneBase totalPages metadataPages word16 = .ok a ∧
      ((∃ a', runOps ops a = .ok a' ∧ WellFormed a' ∧ Counted a' ∧
          ReflTransGen PageMove (pageState a) (pageState a') ∧
          ∀ p < metadataPages, pageState a' p = .reserved) ∨
        ∃ e, runOps ops a = .error e ∧ KmallocPanic e) := by
  obtain ⟨a, hinit, hwf, hcount, -, -, -, -, -, hview⟩ :=
    init_wellFormed word16 hmeta hlt hbase hwrap
  have hrun := runOps_outcome ops a hv ⟨hwf, hcount⟩
  refine ⟨a, hinit, ?_⟩
  cases hr : runOps ops a with
  | error e =>
    rw [hr] at hrun
    exact .inr ⟨e, rfl, hrun⟩
  | ok a' =>
    rw [hr] at hrun
    obtain ⟨hs', hm⟩ := hrun
    have hpm := Moves.pageMoves hm
    refine .inl ⟨a', rfl, hs'.wf, hs'.counted, hpm, fun p hp => ?_⟩
    -- a reserved page is not managed, so no move touches it
    have hres : pageState a p = .reserved := by rw [hview p, if_pos hp]
    rw [PageMove.run_eq_of_unmanaged hpm (by rw [hres]; rfl), hres]

/-- `init_runOps_refines` on a zone of 16 pages, for an allocation of two pages, a page
claimed for the cache and released, a range free and a free of page 8. -/
theorem init_runOps_refines_five_ops :
    0 < 1 ∧ 1 < 16 ∧ 0 % pageSize = 0 ∧ 16 + 2 ^ maxOrder ≤ 2 ^ 32 ∧
      (∀ op ∈ [Op.alloc 8192 1, .claimFreeOrder0ForCache, .releaseCachedOrder0At 1,
        .freeOrder0RangeAt 8 2, .free (pageToPtr 0 8)], op.ownerValid = true) ∧
      ∃ a, init 0 16 1 (fun _ => 0) = .ok a ∧
        ((∃ a', runOps [Op.alloc 8192 1, .claimFreeOrder0ForCache, .releaseCachedOrder0At 1,
            .freeOrder0RangeAt 8 2, .free (pageToPtr 0 8)] a = .ok a' ∧ WellFormed a' ∧
            Counted a' ∧ ReflTransGen PageMove (pageState a) (pageState a') ∧
            ∀ p < 1, pageState a' p = .reserved) ∨
          ∃ e, runOps [Op.alloc 8192 1, .claimFreeOrder0ForCache, .releaseCachedOrder0At 1,
            .freeOrder0RangeAt 8 2, .free (pageToPtr 0 8)] a = .error e ∧ KmallocPanic e) :=
  ⟨by decide, by decide, by decide, by norm_num [maxOrder], by decide,
    init_runOps_refines (fun _ => 0) (by decide) (by decide) (by decide) (by norm_num [maxOrder])
      _ (by decide)⟩

end Runs

end Wos.PageAlloc
