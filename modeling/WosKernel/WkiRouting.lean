import WosKernel.WkiReliable
import WosKernel.ByteCodec

/-! # The WKI link-state database (`net/wki/routing.cpp`)

Every node floods a link-state advertisement (LSA) listing its direct neighbours, and keeps
the latest LSA of every origin it has heard of in `s_lsdb`, an array of `WKI_MAX_PEERS`
slots.  This module transcribes what changes that array:

* `lsdbFind` and `lsdbAlloc` (`lsdb_find`, `lsdb_alloc`);
* `handleLsa` (`detail::handle_lsa`): the length checks on the raw payload, the refusal of
  the node's own LSAs, the stale check by `seq_after`, the store and the re-flood
  `floodLsa`;
* `lsaGenerateAndFlood` (`wki_lsa_generate_and_flood`): the node's own LSA from its direct
  neighbours (`collectDirectNeighbors`), unless it matches the stored one or comes too soon;
* `routingInvalidateNode` and `routingInit`.

`wki_routing_recompute`, which both LSA paths call, reads the array and writes only the routing
table and the routing fields of indirect peers; neither is read here, so it is left to the
module on shortest paths.  Arrival times (`received_time_us`) are written but never read, since
aging is disabled, and are left out.  A payload is the list of its bytes, read as the packed
little-endian `LsaPayload` the code casts it to.

The results:

* `LsdbInv`: no two valid slots share an origin, and no slot counts more than
  `WKI_MAX_NEIGHBORS_PER_LSA` neighbours.  With the own slot holding the last own number
  (`RoutingInv`), every event keeps it (`RoutingInv.step`).
* `RoutingInv.step_seq_forward`: an origin valid across an event keeps its slot, and its stored
  sequence number stays or moves forward in serial order, to the number of the LSA handled or,
  on the own origin, to `my_lsa_seq + 1` (`SeqStep`).
* `handleLsa_own`: an LSA of the node's own origin is neither stored nor flooded.
* `handleLsa_restore`: serial order is not transitive, so four LSAs of one origin, each after
  the last, store the same sequence number twice.  Within a window of `2^31` sequence numbers
  after a stored one, it is never stored again while the origin stays valid (`WindowRun`,
  `RoutingInv.window_no_restore`).
-/

namespace Wos.Wki

open ByteCodec SerialNumber

/-- `WKI_NODE_INVALID`. -/
def wkiNodeInvalid : UInt16 := 0x0000

/-- `WKI_NODE_BROADCAST`. -/
def wkiNodeBroadcast : UInt16 := 0xFFFF

/-- `WKI_MAX_PEERS`: the slots of the LSDB. -/
def wkiMaxPeers : Nat := 256

/-- `WKI_MAX_NEIGHBORS_PER_LSA`: the neighbour slots of an LSDB entry. -/
def wkiMaxNeighborsPerLsa : Nat := 32

/-- `WKI_DEFAULT_LINK_COST`. -/
def wkiDefaultLinkCost : UInt16 := 1

/-- `WKI_LSA_MIN_INTERVAL_MS`. -/
def wkiLsaMinIntervalMs : UInt32 := 1000

/-- `sizeof(LsaPayload)`: origin, sequence number, neighbour count and RDMA zone bitmap,
packed. -/
def lsaPayloadSize : Nat := 12

/-- `sizeof(LsaNeighborEntry)`. -/
def lsaNeighborEntrySize : Nat := 6

/-- `LsaNeighborEntry`. -/
structure LsaNeighborEntry where
  nodeId : UInt16
  linkCost : UInt16
  transportMtu : UInt16
deriving DecidableEq, Repr

/-- `LsdbEntry`; `neighbors` is the array of `WKI_MAX_NEIGHBORS_PER_LSA` slots, of which the
first `numNeighbors` are the listed ones. -/
structure LsdbEntry where
  originNode : UInt16 := wkiNodeInvalid
  lsaSeq : UInt32 := 0
  rdmaZoneBitmap : UInt32 := 0
  numNeighbors : UInt16 := 0
  neighbors : Fin wkiMaxNeighborsPerLsa → LsaNeighborEntry := fun _ => ⟨0, 0, 0⟩
  valid : Bool := false

/-- `s_lsdb`. -/
abbrev Lsdb := Fin wkiMaxPeers → LsdbEntry

/-- `std::ranges::copy(nbrs, entry->neighbors.begin())`: the first slots take `nbrs`, the
others keep what they held. -/
def copyNeighbors (nbrs : List LsaNeighborEntry)
    (slots : Fin wkiMaxNeighborsPerLsa → LsaNeighborEntry) : Fin wkiMaxNeighborsPerLsa → LsaNeighborEntry :=
  fun k => nbrs.getD k.val (slots k)

/-! ## The payload -/

/-- A little-endian field of `width` bytes at offset `off`. -/
def readLe (payload : List UInt8) (off width : Nat) : Nat := decodeLE (slice payload off width)

/-- The fixed header of an LSA, as the code reads it through `LsaPayload`. -/
structure LsaPayload where
  originNode : UInt16
  lsaSeq : UInt32
  numNeighbors : UInt16
  rdmaZoneBitmap : UInt32

/-- The header of an LSA at the start of `payload`. -/
def LsaPayload.read (payload : List UInt8) : LsaPayload where
  originNode := UInt16.ofNat (readLe payload 0 2)
  lsaSeq := UInt32.ofNat (readLe payload 2 4)
  numNeighbors := UInt16.ofNat (readLe payload 6 2)
  rdmaZoneBitmap := UInt32.ofNat (readLe payload 8 4)

/-- The `k`-th neighbour entry after the header (`lsa_neighbors(lsa)[k]`). -/
def lsaNeighbor (payload : List UInt8) (k : Nat) : LsaNeighborEntry :=
  let off := lsaPayloadSize + lsaNeighborEntrySize * k
  ⟨UInt16.ofNat (readLe payload off 2), UInt16.ofNat (readLe payload (off + 2) 2),
    UInt16.ofNat (readLe payload (off + 4) 2)⟩

/-- The first `count` neighbour entries after the header. -/
def lsaNeighbors (payload : List UInt8) (count : Nat) : List LsaNeighborEntry :=
  (List.range count).map (lsaNeighbor payload)

/-- The bytes of an LSA, as `wki_lsa_generate_and_flood` lays them out in its buffer. -/
def lsaPayloadBytes (originNode : UInt16) (lsaSeq : UInt32) (rdmaZoneBitmap : UInt32)
    (nbrs : List LsaNeighborEntry) : List UInt8 :=
  encodeLE 2 originNode.toNat ++ encodeLE 4 lsaSeq.toNat ++ encodeLE 2 nbrs.length ++
    encodeLE 4 rdmaZoneBitmap.toNat ++
    nbrs.flatMap fun nb =>
      encodeLE 2 nb.nodeId.toNat ++ encodeLE 2 nb.linkCost.toNat ++ encodeLE 2 nb.transportMtu.toNat

/-! ## The peers -/

/-- `PeerState`. -/
inductive PeerState
  | unknown
  | helloSent
  | connected
  | fenced
  | reconnecting
deriving DecidableEq, Repr

/-- The fields of a `WkiPeer` that the LSA paths read; `transportMtu` is `none` when the peer
has no transport. -/
structure WkiPeer where
  nodeId : UInt16
  state : PeerState
  isDirect : Bool
  linkCost : UInt16
  transportMtu : Option UInt16

/-- The loop of `collect_direct_neighbors`, which stops once the LSA is full. -/
def collectDirectNeighborsLoop : List WkiPeer → List LsaNeighborEntry → List LsaNeighborEntry
  | [], nbrs => nbrs
  | peer :: peers, nbrs =>
    if peer.nodeId == wkiNodeInvalid then collectDirectNeighborsLoop peers nbrs
    else if peer.state != .connected then collectDirectNeighborsLoop peers nbrs
    else if !peer.isDirect then collectDirectNeighborsLoop peers nbrs
    else if nbrs.length ≥ wkiMaxNeighborsPerLsa then nbrs
    else
      collectDirectNeighborsLoop peers
        (nbrs ++ [⟨peer.nodeId, if peer.linkCost > 0 then peer.linkCost else wkiDefaultLinkCost,
          peer.transportMtu.getD 0⟩])

/-- `collect_direct_neighbors`. -/
def collectDirectNeighbors (peers : List WkiPeer) : List LsaNeighborEntry :=
  collectDirectNeighborsLoop peers []

/-- `lsa_lists_neighbor`. -/
def lsaListsNeighbor (payload : List UInt8) (nodeId : UInt16) : Bool :=
  if payload.length < lsaPayloadSize || nodeId == wkiNodeInvalid then false
  else
    let nbrCount := min (LsaPayload.read payload).numNeighbors.toNat wkiMaxNeighborsPerLsa
    if payload.length < lsaPayloadSize + nbrCount * lsaNeighborEntrySize then false
    else (lsaNeighbors payload nbrCount).any (·.nodeId == nodeId)

/-- `flood_lsa`: the peers the LSA is sent to. -/
def floodLsa (peers : List WkiPeer) (payload : List UInt8) (excludeNode : UInt16)
    (suppressOriginNeighbors : Bool) : List UInt16 :=
  let origin := if payload.length ≥ lsaPayloadSize then some (LsaPayload.read payload).originNode
    else none
  peers.filterMap fun peer =>
    if peer.nodeId == wkiNodeInvalid then none
    else if peer.state != .connected then none
    else if !peer.isDirect then none
    else if peer.nodeId == excludeNode then none
    else if origin == some peer.nodeId then none
    else if suppressOriginNeighbors && lsaListsNeighbor payload peer.nodeId then none
    else some peer.nodeId

/-! ## The database -/

/-- `lsdb_find`: the first valid slot of `originNode`. -/
def lsdbFind (lsdb : Lsdb) (originNode : UInt16) : Option (Fin wkiMaxPeers) :=
  (List.finRange wkiMaxPeers).find? fun i => (lsdb i).valid && (lsdb i).originNode == originNode

/-- `lsdb_alloc`: the slot of `originNode`, or else the first free slot, claimed for it. -/
def lsdbAlloc (lsdb : Lsdb) (originNode : UInt16) : Option (Lsdb × Fin wkiMaxPeers) :=
  match lsdbFind lsdb originNode with
  | some i => some (lsdb, i)
  | none =>
    match (List.finRange wkiMaxPeers).find? (fun i => !(lsdb i).valid) with
    | some i => some (Function.update lsdb i { lsdb i with originNode := originNode, valid := true }, i)
    | none => none

/-- The routing state `routing.cpp` keeps, with `g_wki.my_lsa_seq`, which only the own-LSA path
writes. -/
structure RoutingState where
  lsdb : Lsdb
  lastOwnLsaTime : UInt64
  lsaPending : Bool
  routingInitialized : Bool
  myLsaSeq : UInt32

/-- The zero-initialised static storage, before `wki_routing_init`. -/
def RoutingState.boot : RoutingState where
  lsdb := fun _ => {}
  lastOwnLsaTime := 0
  lsaPending := false
  routingInitialized := false
  myLsaSeq := 0

/-- The store of `handle_lsa` into slot `i`: sequence number, bitmap, neighbour count clamped to
the slots, and the neighbours. -/
def storeLsa (lsdb : Lsdb) (i : Fin wkiMaxPeers) (payload : List UInt8) : Lsdb :=
  let lsa := LsaPayload.read payload
  let num := if lsa.numNeighbors.toNat > wkiMaxNeighborsPerLsa then
      UInt16.ofNat wkiMaxNeighborsPerLsa
    else lsa.numNeighbors
  Function.update lsdb i
    { lsdb i with
      lsaSeq := lsa.lsaSeq
      rdmaZoneBitmap := lsa.rdmaZoneBitmap
      numNeighbors := num
      neighbors := copyNeighbors (lsaNeighbors payload num.toNat) (lsdb i).neighbors }

/-- `detail::handle_lsa` from `srcNode`: the new state, and the peers it floods the LSA to when
it stores it. -/
def handleLsa (myNodeId : UInt16) (peers : List WkiPeer) (srcNode : UInt16) (payload : List UInt8)
    (st : RoutingState) : RoutingState × Option (List UInt16) :=
  if payload.length < lsaPayloadSize then (st, none)
  else
    let lsa := LsaPayload.read payload
    if payload.length < lsaPayloadSize + lsa.numNeighbors.toNat * lsaNeighborEntrySize then (st, none)
    else if lsa.originNode == myNodeId then (st, none)
    else
      -- duplicate and stale suppression, then the slot to store into
      let slot : Option (Lsdb × Fin wkiMaxPeers) :=
        match lsdbFind st.lsdb lsa.originNode with
        | some i =>
          if (st.lsdb i).valid && !seqAfter lsa.lsaSeq (st.lsdb i).lsaSeq then none
          else some (st.lsdb, i)
        | none => lsdbAlloc st.lsdb lsa.originNode
      match slot with
      | none => (st, none)
      | some (lsdb, i) =>
        ({ st with lsdb := storeLsa lsdb i payload }, some (floodLsa peers payload srcNode true))

/-- What `wki_lsa_generate_and_flood` reads of `g_wki` besides the sequence number. -/
structure WkiEnv where
  initialized : Bool
  peers : List WkiPeer
  rdmaZoneBitmap : UInt32

/-- `own_lsa_matches_locked`: the stored own LSA lists exactly the current neighbours. -/
def ownLsaMatches (lsdb : Lsdb) (myNodeId : UInt16) (nbrs : List LsaNeighborEntry)
    (rdmaZoneBitmap : UInt32) : Bool :=
  match lsdbFind lsdb myNodeId with
  | none => false
  | some i =>
    let entry := lsdb i
    if !entry.valid then false
    else if entry.rdmaZoneBitmap != rdmaZoneBitmap || entry.numNeighbors.toNat != nbrs.length then false
    else (List.finRange wkiMaxNeighborsPerLsa).filterMap (fun k =>
      if k.val < nbrs.length then some (entry.neighbors k) else none) == nbrs

/-- The store of the own LSA into slot `i`. -/
def storeOwnLsa (lsdb : Lsdb) (i : Fin wkiMaxPeers) (lsaSeq rdmaZoneBitmap : UInt32)
    (nbrs : List LsaNeighborEntry) : Lsdb :=
  Function.update lsdb i
    { lsdb i with
      lsaSeq := lsaSeq
      rdmaZoneBitmap := rdmaZoneBitmap
      numNeighbors := UInt16.ofNat nbrs.length
      neighbors := copyNeighbors nbrs (lsdb i).neighbors }

/-- `wki_lsa_generate_and_flood`, at the times `nowUs` of its start and `doneUs` of its end:
the new state, and the peers it floods the own LSA to. -/
def lsaGenerateAndFlood (myNodeId : UInt16) (env : WkiEnv) (nowUs doneUs : UInt64)
    (st : RoutingState) :
    RoutingState × Option (List UInt16) :=
  if !env.initialized then (st, none)
  else
    let minIntervalUs : UInt64 := wkiLsaMinIntervalMs.toUInt64 * 1000
    let nbrs := collectDirectNeighbors env.peers
    if ownLsaMatches st.lsdb myNodeId nbrs env.rdmaZoneBitmap then
      ({ st with lsaPending := false }, none)
    else if st.lastOwnLsaTime != 0 && nowUs - st.lastOwnLsaTime < minIntervalUs then
      ({ st with lsaPending := true }, none)
    else
      let lsaSeq := st.myLsaSeq + 1
      let payload := lsaPayloadBytes myNodeId lsaSeq env.rdmaZoneBitmap nbrs
      -- `lsdb_find`, then `lsdb_alloc`, which finds nothing either and takes a free slot
      let slot : Option (Lsdb × Fin wkiMaxPeers) :=
        match lsdbFind st.lsdb myNodeId with
        | some i => some (st.lsdb, i)
        | none => lsdbAlloc st.lsdb myNodeId
      let lsdb := match slot with
        | some (lsdb, i) => storeOwnLsa lsdb i lsaSeq env.rdmaZoneBitmap nbrs
        | none => st.lsdb
      ({ st with lsaPending := false, myLsaSeq := lsaSeq, lsdb := lsdb, lastOwnLsaTime := doneUs },
        some (floodLsa env.peers payload wkiNodeInvalid false))

/-- `wki_routing_invalidate_node`. -/
def routingInvalidateNode (nodeId : UInt16) (st : RoutingState) : RoutingState :=
  match lsdbFind st.lsdb nodeId with
  | some i => { st with lsdb := Function.update st.lsdb i { st.lsdb i with valid := false } }
  | none => st

/-- `wki_routing_init`. -/
def routingInit (st : RoutingState) : RoutingState :=
  if st.routingInitialized then st
  else
    { st with
      lsdb := fun i => { st.lsdb i with valid := false }
      lastOwnLsaTime := 0
      lsaPending := false
      routingInitialized := true }

/-- The calls that change the database. -/
inductive RoutingEvent
  /-- an LSA frame from `srcNode`, flooded to the live direct peers among `peers` -/
  | lsa (peers : List WkiPeer) (srcNode : UInt16) (payload : List UInt8)
  /-- the own LSA, at the start and end times of the call -/
  | generate (env : WkiEnv) (nowUs doneUs : UInt64)
  | invalidate (nodeId : UInt16)
  | init

/-- One event at the node `myNodeId`: the new state and the flood it sends, if any. -/
def RoutingEvent.apply (myNodeId : UInt16) : RoutingEvent → RoutingState →
    RoutingState × Option (List UInt16)
  | .lsa peers srcNode payload, st => handleLsa myNodeId peers srcNode payload st
  | .generate env nowUs doneUs, st => lsaGenerateAndFlood myNodeId env nowUs doneUs st
  | .invalidate nodeId, st => (routingInvalidateNode nodeId st, none)
  | .init, st => (routingInit st, none)

/-- The state after a sequence of events. -/
def runEvents (myNodeId : UInt16) : RoutingState → List RoutingEvent → RoutingState
  | st, [] => st
  | st, ev :: evs => runEvents myNodeId (ev.apply myNodeId st).1 evs

/-! ## Finding a slot -/

/-- No two valid slots share an origin. -/
def LsdbUnique (lsdb : Lsdb) : Prop :=
  ∀ i j, (lsdb i).valid → (lsdb j).valid → (lsdb i).originNode = (lsdb j).originNode → i = j

/-- **The invariant of the database**: origins are unique among valid slots, and no slot
counts more neighbours than it has room for. -/
structure LsdbInv (lsdb : Lsdb) : Prop where
  unique : LsdbUnique lsdb
  bounded : ∀ i, (lsdb i).numNeighbors.toNat ≤ wkiMaxNeighborsPerLsa

theorem lsdbFind_some {lsdb : Lsdb} {o : UInt16} {i : Fin wkiMaxPeers}
    (h : lsdbFind lsdb o = some i) : (lsdb i).valid ∧ (lsdb i).originNode = o := by
  simpa using List.find?_some h

theorem lsdbFind_eq_none {lsdb : Lsdb} {o : UInt16} :
    lsdbFind lsdb o = none ↔ ∀ i, ¬ ((lsdb i).valid ∧ (lsdb i).originNode = o) := by
  unfold lsdbFind
  rw [List.find?_eq_none]
  simp

/-- Among unique origins, the valid slot of an origin is the one found. -/
theorem lsdbFind_of_unique {lsdb : Lsdb} (hu : LsdbUnique lsdb) {i : Fin wkiMaxPeers} {o : UInt16}
    (hv : (lsdb i).valid) (ho : (lsdb i).originNode = o) : lsdbFind lsdb o = some i := by
  obtain ⟨j, hj⟩ : ∃ j, lsdbFind lsdb o = some j :=
    Option.isSome_iff_exists.mp (List.find?_isSome.mpr ⟨i, List.mem_finRange i, by simp [hv, ho]⟩)
  obtain ⟨hjv, hjo⟩ := lsdbFind_some hj
  rw [hj, hu j i hjv hv (hjo.trans ho.symm)]

/-- A write that keeps a slot's validity and origin finds every origin where it was. -/
theorem lsdbFind_update_key {lsdb : Lsdb} {i : Fin wkiMaxPeers} {e : LsdbEntry}
    (hv : e.valid = (lsdb i).valid) (ho : e.originNode = (lsdb i).originNode) (o : UInt16) :
    lsdbFind (Function.update lsdb i e) o = lsdbFind lsdb o := by
  unfold lsdbFind
  apply List.find?_congr
  intro j _
  by_cases hj : j = i
  · subst hj
    simp [hv, ho]
  · simp [Function.update_of_ne hj]

/-- A write to a slot that neither held nor holds `o` validly does not move `o`. -/
theorem lsdbFind_update_of_ne {lsdb : Lsdb} {i : Fin wkiMaxPeers} {e : LsdbEntry} {o : UInt16}
    (hold : ¬ ((lsdb i).valid ∧ (lsdb i).originNode = o)) (hnew : ¬ (e.valid ∧ e.originNode = o)) :
    lsdbFind (Function.update lsdb i e) o = lsdbFind lsdb o := by
  unfold lsdbFind
  apply List.find?_congr
  intro j _
  by_cases hj : j = i
  · subst hj
    have h₁ : (e.valid && e.originNode == o) = false := by simpa using hnew
    have h₂ : ((lsdb j).valid && (lsdb j).originNode == o) = false := by simpa using hold
    rw [Function.update_self, h₁, h₂]
  · simp [Function.update_of_ne hj]

/-- A write keeps the invariant when the entry it writes is bounded and, if valid, has an
origin no other valid slot has. -/
theorem LsdbInv.update {lsdb : Lsdb} (h : LsdbInv lsdb) {i : Fin wkiMaxPeers} {e : LsdbEntry}
    (hkey : e.valid → ∀ j, j ≠ i → (lsdb j).valid → (lsdb j).originNode ≠ e.originNode)
    (hnum : e.numNeighbors.toNat ≤ wkiMaxNeighborsPerLsa) : LsdbInv (Function.update lsdb i e) where
  unique := by
    intro j k hj hk hjk
    by_cases hji : j = i <;> by_cases hki : k = i
    · rw [hji, hki]
    · subst hji
      rw [Function.update_self] at hj hjk
      rw [Function.update_of_ne hki] at hk hjk
      exact absurd hjk.symm (hkey hj k hki hk)
    · subst hki
      rw [Function.update_self] at hk hjk
      rw [Function.update_of_ne hji] at hj hjk
      exact absurd hjk (hkey hk j hji hj)
    · rw [Function.update_of_ne hji] at hj hjk
      rw [Function.update_of_ne hki] at hk hjk
      exact h.unique j k hj hk hjk
  bounded := by
    intro j
    by_cases hji : j = i
    · subst hji
      rw [Function.update_self]
      exact hnum
    · rw [Function.update_of_ne hji]
      exact h.bounded j

/-- The slot of `i` claimed for `o`; a no-op on the slot `o` already has. -/
def lsdbClaim (lsdb : Lsdb) (i : Fin wkiMaxPeers) (o : UInt16) : Lsdb :=
  Function.update lsdb i { lsdb i with originNode := o, valid := true }

theorem lsdbClaim_of_find {lsdb : Lsdb} {i : Fin wkiMaxPeers} {o : UInt16}
    (h : lsdbFind lsdb o = some i) : lsdbClaim lsdb i o = lsdb := by
  obtain ⟨hv, ho⟩ := lsdbFind_some h
  unfold lsdbClaim
  rw [← ho, ← hv]
  exact Function.update_eq_self i lsdb

/-- `lsdb_alloc` of an origin without a slot claims a free one. -/
theorem lsdbAlloc_of_none {lsdb : Lsdb} {o : UInt16} {lsdb' : Lsdb} {i : Fin wkiMaxPeers}
    (hnone : lsdbFind lsdb o = none) (ha : lsdbAlloc lsdb o = some (lsdb', i)) :
    lsdb' = lsdbClaim lsdb i o ∧ (lsdb i).valid = false := by
  unfold lsdbAlloc at ha
  rw [hnone] at ha
  dsimp only at ha
  cases hfree : (List.finRange wkiMaxPeers).find? (fun i => !(lsdb i).valid) with
  | none => rw [hfree] at ha; cases ha
  | some j =>
    rw [hfree] at ha
    cases ha
    exact ⟨rfl, by simpa using List.find?_some hfree⟩

/-- Claiming a free slot for an origin without one keeps the invariant and finds it there. -/
theorem LsdbInv.claim {lsdb : Lsdb} (h : LsdbInv lsdb) {i : Fin wkiMaxPeers} {o : UInt16}
    (hnone : lsdbFind lsdb o = none) :
    LsdbInv (lsdbClaim lsdb i o) :=
  h.update (fun _ j _ hj ho => lsdbFind_eq_none.mp hnone j ⟨hj, ho⟩) (h.bounded i)

/-- A write that keeps a slot's validity and origin keeps the invariant, if bounded. -/
theorem LsdbInv.update_key {lsdb : Lsdb} (h : LsdbInv lsdb) {i : Fin wkiMaxPeers} {e : LsdbEntry}
    (hv : e.valid = (lsdb i).valid) (ho : e.originNode = (lsdb i).originNode)
    (hnum : e.numNeighbors.toNat ≤ wkiMaxNeighborsPerLsa) : LsdbInv (Function.update lsdb i e) := by
  refine h.update (fun he j hji hj hjo => hji (h.unique j i hj (hv ▸ he) (hjo.trans ho))) hnum

@[simp] theorem lsdbClaim_self (lsdb : Lsdb) (i : Fin wkiMaxPeers) (o : UInt16) :
    lsdbClaim lsdb i o i = { lsdb i with originNode := o, valid := true } :=
  Function.update_self _ _ _

theorem lsdbClaim_of_ne (lsdb : Lsdb) {i j : Fin wkiMaxPeers} (o : UInt16) (h : j ≠ i) :
    lsdbClaim lsdb i o j = lsdb j :=
  Function.update_of_ne h _ _

/-- Where `handle_lsa` and the own-LSA path store: the slot an origin has, or a free slot for
an origin without one. -/
def SlotFor (lsdb : Lsdb) (o : UInt16) (i : Fin wkiMaxPeers) : Prop :=
  lsdbFind lsdb o = some i ∨ (lsdbFind lsdb o = none ∧ (lsdb i).valid = false)

/-- **The frame of a store**: claiming slot `i` for `o` and writing an entry of origin `o`
there moves no other origin and changes none of its slots. -/
theorem SlotFor.frame {lsdb : Lsdb} {o : UInt16} {i : Fin wkiMaxPeers} (hs : SlotFor lsdb o i)
    {e : LsdbEntry} (hv : e.valid = true) (ho : e.originNode = o) {o' : UInt16} (hne : o' ≠ o) :
    lsdbFind (Function.update (lsdbClaim lsdb i o) i e) o' = lsdbFind lsdb o' ∧
      ∀ j, lsdbFind lsdb o' = some j → Function.update (lsdbClaim lsdb i o) i e j = lsdb j := by
  have hnot : ¬ ((lsdb i).valid ∧ (lsdb i).originNode = o') := by
    rintro ⟨hiv, hio⟩
    rcases hs with hf | ⟨-, hfree⟩
    · exact hne (hio.symm.trans (lsdbFind_some hf).2)
    · rw [hfree] at hiv
      cases hiv
  refine ⟨?_, fun j hj => ?_⟩
  · rw [lsdbFind_update_key (by simp [hv]) (by simp [ho])]
    rcases hs with hf | ⟨-, -⟩
    · rw [lsdbClaim_of_find hf]
    · exact lsdbFind_update_of_ne hnot (fun h => hne (h.2.symm))
  · have hji : j ≠ i := fun hji => hnot (hji ▸ lsdbFind_some hj)
    rw [Function.update_of_ne hji, lsdbClaim_of_ne _ _ hji]

/-- After a store of an entry of origin `o` into its slot, `o` is found there. -/
theorem SlotFor.find_self {lsdb : Lsdb} (h : LsdbInv lsdb) {o : UInt16} {i : Fin wkiMaxPeers}
    (hs : SlotFor lsdb o i) {e : LsdbEntry} (hv : e.valid = true) (ho : e.originNode = o)
    (hnum : e.numNeighbors.toNat ≤ wkiMaxNeighborsPerLsa) :
    LsdbInv (Function.update (lsdbClaim lsdb i o) i e) ∧
      lsdbFind (Function.update (lsdbClaim lsdb i o) i e) o = some i := by
  have hc : LsdbInv (lsdbClaim lsdb i o) := by
    rcases hs with hf | ⟨hnone, -⟩
    · rw [lsdbClaim_of_find hf]
      exact h
    · exact h.claim hnone
  have hinv := hc.update_key (i := i) (by simp [hv]) (by simp [ho]) hnum
  exact ⟨hinv, lsdbFind_of_unique hinv.unique (by simp [hv]) (by simp [ho])⟩

/-- `storeLsa` writes an entry with the slot's key, the LSA's sequence number and at most
`WKI_MAX_NEIGHBORS_PER_LSA` neighbours. -/
theorem storeLsa_eq (lsdb : Lsdb) (i : Fin wkiMaxPeers) (payload : List UInt8) :
    ∃ e, storeLsa lsdb i payload = Function.update lsdb i e ∧ e.valid = (lsdb i).valid ∧
      e.originNode = (lsdb i).originNode ∧ e.lsaSeq = (LsaPayload.read payload).lsaSeq ∧
      e.numNeighbors.toNat ≤ wkiMaxNeighborsPerLsa := by
  refine ⟨_, rfl, rfl, rfl, rfl, ?_⟩
  dsimp only
  split
  · decide
  · omega

/-- `storeOwnLsa` writes an entry with the slot's key and the given sequence number. -/
theorem storeOwnLsa_eq (lsdb : Lsdb) (i : Fin wkiMaxPeers) (lsaSeq rdmaZoneBitmap : UInt32)
    {nbrs : List LsaNeighborEntry} (hnbrs : nbrs.length ≤ wkiMaxNeighborsPerLsa) :
    ∃ e, storeOwnLsa lsdb i lsaSeq rdmaZoneBitmap nbrs = Function.update lsdb i e ∧
      e.valid = (lsdb i).valid ∧ e.originNode = (lsdb i).originNode ∧ e.lsaSeq = lsaSeq ∧
      e.numNeighbors.toNat ≤ wkiMaxNeighborsPerLsa := by
  refine ⟨_, rfl, rfl, rfl, rfl, ?_⟩
  have : nbrs.length < 2 ^ 16 := by unfold wkiMaxNeighborsPerLsa at hnbrs; omega
  show (UInt16.ofNat nbrs.length).toNat ≤ _
  rw [UInt16.toNat_ofNat_of_lt' this]
  exact hnbrs

theorem collectDirectNeighborsLoop_length (peers : List WkiPeer) {nbrs : List LsaNeighborEntry}
    (h : nbrs.length ≤ wkiMaxNeighborsPerLsa) :
    (collectDirectNeighborsLoop peers nbrs).length ≤ wkiMaxNeighborsPerLsa := by
  induction peers generalizing nbrs with
  | nil => exact h
  | cons peer peers ih =>
    rw [collectDirectNeighborsLoop]
    split
    · exact ih h
    · split
      · exact ih h
      · split
        · exact ih h
        · split
          · exact h
          · rename_i hfull
            exact ih (by rw [List.length_append, List.length_singleton]; omega)

/-- `collect_direct_neighbors` fills at most one LSA. -/
theorem collectDirectNeighbors_length (peers : List WkiPeer) :
    (collectDirectNeighbors peers).length ≤ wkiMaxNeighborsPerLsa :=
  collectDirectNeighborsLoop_length peers (Nat.zero_le _)

/-! ## What the events do -/

/-- What `handle_lsa` stores into slot `i`: a payload long enough for the neighbours it counts,
of another origin, newer than the origin's stored LSA, or of an origin without a slot. -/
structure Accepts (myNodeId : UInt16) (st : RoutingState) (payload : List UInt8)
    (i : Fin wkiMaxPeers) : Prop where
  fits : lsaPayloadSize + (LsaPayload.read payload).numNeighbors.toNat * lsaNeighborEntrySize ≤
    payload.length
  other : (LsaPayload.read payload).originNode ≠ myNodeId
  slot : SlotFor st.lsdb (LsaPayload.read payload).originNode i
  newer : lsdbFind st.lsdb (LsaPayload.read payload).originNode = some i →
    seqAfter (LsaPayload.read payload).lsaSeq (st.lsdb i).lsaSeq = true

/-- **`handle_lsa` either drops the LSA or stores it and floods it.** -/
theorem handleLsa_cases (myNodeId : UInt16) (peers : List WkiPeer) (srcNode : UInt16)
    (payload : List UInt8) (st : RoutingState) :
    handleLsa myNodeId peers srcNode payload st = (st, none) ∨
      ∃ i, Accepts myNodeId st payload i ∧
        handleLsa myNodeId peers srcNode payload st =
          ({ st with
              lsdb := storeLsa (lsdbClaim st.lsdb i (LsaPayload.read payload).originNode) i payload },
            some (floodLsa peers payload srcNode true)) := by
  unfold handleLsa
  by_cases hlong : payload.length < lsaPayloadSize
  · exact .inl (if_pos hlong)
  rw [if_neg hlong]
  dsimp only
  by_cases hfits : payload.length <
      lsaPayloadSize + (LsaPayload.read payload).numNeighbors.toNat * lsaNeighborEntrySize
  · exact .inl (if_pos hfits)
  rw [if_neg hfits]
  by_cases hown : ((LsaPayload.read payload).originNode == myNodeId) = true
  · exact .inl (if_pos hown)
  rw [if_neg hown]
  have hfit := Nat.le_of_not_lt hfits
  have hother : (LsaPayload.read payload).originNode ≠ myNodeId := fun h => hown (by simp [h])
  cases hfind : lsdbFind st.lsdb (LsaPayload.read payload).originNode with
  | some i =>
    have hv := (lsdbFind_some hfind).1
    dsimp only
    by_cases hstale :
        ((st.lsdb i).valid && !seqAfter (LsaPayload.read payload).lsaSeq (st.lsdb i).lsaSeq) = true
    · exact .inl (by rw [if_pos hstale])
    · rw [if_neg hstale]
      refine .inr ⟨i, ⟨hfit, hother, .inl hfind, fun _ => by simpa [hv] using hstale⟩, ?_⟩
      rw [lsdbClaim_of_find hfind]
  | none =>
    dsimp only
    cases halloc : lsdbAlloc st.lsdb (LsaPayload.read payload).originNode with
    | none => exact .inl rfl
    | some p =>
      obtain ⟨lsdb', i⟩ := p
      obtain ⟨rfl, hfree⟩ := lsdbAlloc_of_none hfind halloc
      refine .inr ⟨i, ⟨hfit, hother, .inr ⟨hfind, hfree⟩, fun h => ?_⟩, rfl⟩
      rw [hfind] at h
      cases h

/-- **The own-LSA path** leaves the database, or stores the next own sequence number into the
node's slot; the sequence number moves on whenever the LSA is sent. -/
theorem lsaGenerateAndFlood_cases (myNodeId : UInt16) (env : WkiEnv) (nowUs doneUs : UInt64)
    (st : RoutingState) :
    ((lsaGenerateAndFlood myNodeId env nowUs doneUs st).1.lsdb = st.lsdb ∧
        (lsaGenerateAndFlood myNodeId env nowUs doneUs st).1.myLsaSeq = st.myLsaSeq) ∨
      ((lsaGenerateAndFlood myNodeId env nowUs doneUs st).1.lsdb = st.lsdb ∧
        lsdbFind st.lsdb myNodeId = none ∧
        (lsaGenerateAndFlood myNodeId env nowUs doneUs st).1.myLsaSeq = st.myLsaSeq + 1) ∨
      ∃ i, SlotFor st.lsdb myNodeId i ∧
        (lsaGenerateAndFlood myNodeId env nowUs doneUs st).1.lsdb =
          storeOwnLsa (lsdbClaim st.lsdb i myNodeId) i (st.myLsaSeq + 1) env.rdmaZoneBitmap
            (collectDirectNeighbors env.peers) ∧
        (lsaGenerateAndFlood myNodeId env nowUs doneUs st).1.myLsaSeq = st.myLsaSeq + 1 := by
  unfold lsaGenerateAndFlood
  by_cases hinit : (!env.initialized) = true
  · exact .inl (by rw [if_pos hinit]; exact ⟨rfl, rfl⟩)
  rw [if_neg hinit]
  dsimp only
  split
  · exact .inl ⟨rfl, rfl⟩
  split
  · exact .inl ⟨rfl, rfl⟩
  cases hfind : lsdbFind st.lsdb myNodeId with
  | some i =>
    refine .inr (.inr ⟨i, .inl hfind, ?_, rfl⟩)
    simp only [lsdbClaim_of_find hfind]
  | none =>
    cases halloc : lsdbAlloc st.lsdb myNodeId with
    | none => exact .inr (.inl ⟨rfl, rfl, rfl⟩)
    | some p =>
      obtain ⟨lsdb', i⟩ := p
      obtain ⟨rfl, hfree⟩ := lsdbAlloc_of_none hfind halloc
      exact .inr (.inr ⟨i, .inr ⟨hfind, hfree⟩, rfl, rfl⟩)

/-! ## The invariant over runs -/

/-- The invariant of the routing state at node `myNodeId`: the database's, and the stored own
LSA carries the last sequence number the node issued. -/
structure RoutingInv (myNodeId : UInt16) (st : RoutingState) : Prop where
  lsdb : LsdbInv st.lsdb
  ownSeq : ∀ i, lsdbFind st.lsdb myNodeId = some i → (st.lsdb i).lsaSeq = st.myLsaSeq

theorem routingInv_boot (myNodeId : UInt16) : RoutingInv myNodeId RoutingState.boot where
  lsdb := ⟨fun i _ hi => by simp [RoutingState.boot] at hi, fun _ => by simp [RoutingState.boot]⟩
  ownSeq i hi := absurd (lsdbFind_some hi).1 (by simp [RoutingState.boot])

theorem RoutingInv.lsa {myNodeId : UInt16} {st : RoutingState} (h : RoutingInv myNodeId st)
    (peers : List WkiPeer) (srcNode : UInt16) (payload : List UInt8) :
    RoutingInv myNodeId (handleLsa myNodeId peers srcNode payload st).1 := by
  rcases handleLsa_cases myNodeId peers srcNode payload st with heq | ⟨i, hacc, heq⟩
  · rw [heq]
    exact h
  · rw [heq]
    obtain ⟨e, hst, hv, ho, -, hnum⟩ := storeLsa_eq (lsdbClaim st.lsdb i _) i payload
    simp only [lsdbClaim_self] at hv ho
    refine ⟨?_, fun j hj => ?_⟩
    · rw [hst]
      exact (hacc.slot.find_self h.lsdb hv ho hnum).1
    · obtain ⟨hfind, hkept⟩ := hacc.slot.frame hv ho (Ne.symm hacc.other)
      dsimp only at hj ⊢
      rw [hst] at hj ⊢
      rw [hfind] at hj
      rw [hkept j hj]
      exact h.ownSeq j hj

theorem RoutingInv.generate {myNodeId : UInt16} {st : RoutingState} (h : RoutingInv myNodeId st)
    (env : WkiEnv) (nowUs doneUs : UInt64) :
    RoutingInv myNodeId (lsaGenerateAndFlood myNodeId env nowUs doneUs st).1 := by
  rcases lsaGenerateAndFlood_cases myNodeId env nowUs doneUs st with
    ⟨hl, hs⟩ | ⟨hl, hnone, -⟩ | ⟨i, hslot, hl, hs⟩
  · exact ⟨hl ▸ h.lsdb, fun j hj => by rw [hl] at hj ⊢; rw [hs]; exact h.ownSeq j hj⟩
  · refine ⟨hl ▸ h.lsdb, fun j hj => ?_⟩
    rw [hl, hnone] at hj
    cases hj
  · obtain ⟨e, hst, hv, ho, hseq, hnum⟩ := storeOwnLsa_eq (lsdbClaim st.lsdb i myNodeId) i
      (st.myLsaSeq + 1) env.rdmaZoneBitmap (collectDirectNeighbors_length env.peers)
    simp only [lsdbClaim_self] at hv ho
    obtain ⟨hinv, hfind⟩ := hslot.find_self h.lsdb hv ho hnum
    refine ⟨by rw [hl, hst]; exact hinv, fun j hj => ?_⟩
    rw [hl, hst, hfind] at hj
    cases hj
    rw [hl, hst, Function.update_self, hseq, hs]

theorem RoutingInv.invalidate {myNodeId : UInt16} {st : RoutingState} (h : RoutingInv myNodeId st)
    (nodeId : UInt16) : RoutingInv myNodeId (routingInvalidateNode nodeId st) := by
  unfold routingInvalidateNode
  cases hfind : lsdbFind st.lsdb nodeId with
  | none => exact h
  | some k =>
    refine ⟨h.lsdb.update (fun hv => absurd hv (by simp)) (h.lsdb.bounded k), fun j hj => ?_⟩
    dsimp only at hj ⊢
    have hjk : j ≠ k := fun hjk => by
      have := (lsdbFind_some hj).1
      rw [hjk, Function.update_self] at this
      simp at this
    have hj' := lsdbFind_some hj
    rw [Function.update_of_ne hjk] at hj' ⊢
    exact h.ownSeq j (lsdbFind_of_unique h.lsdb.unique hj'.1 hj'.2)

theorem RoutingInv.init {myNodeId : UInt16} {st : RoutingState} (h : RoutingInv myNodeId st) :
    RoutingInv myNodeId (routingInit st) := by
  unfold routingInit
  split
  · exact h
  · refine ⟨⟨fun i _ hi => by simp at hi, fun i => h.lsdb.bounded i⟩, fun j hj => ?_⟩
    simpa using (lsdbFind_some hj).1

/-- **Every event keeps the invariant.** -/
theorem RoutingInv.step {myNodeId : UInt16} {st : RoutingState} (h : RoutingInv myNodeId st)
    (ev : RoutingEvent) : RoutingInv myNodeId (ev.apply myNodeId st).1 := by
  cases ev with
  | lsa peers srcNode payload => exact h.lsa peers srcNode payload
  | generate env nowUs doneUs => exact h.generate env nowUs doneUs
  | invalidate nodeId => exact h.invalidate nodeId
  | init => exact h.init

theorem RoutingInv.run {myNodeId : UInt16} {st : RoutingState} (h : RoutingInv myNodeId st)
    (evs : List RoutingEvent) : RoutingInv myNodeId (runEvents myNodeId st evs) := by
  induction evs generalizing st with
  | nil => exact h
  | cons ev evs ih => exact ih (h.step ev)

/-! ## Sequence numbers move forward -/

/-- The origin and sequence number an LSA event carries. -/
def RoutingEvent.lsaKey : RoutingEvent → Option (UInt16 × UInt32)
  | .lsa _ _ payload => some ((LsaPayload.read payload).originNode, (LsaPayload.read payload).lsaSeq)
  | _ => none

/-- What one event `ev` does to the sequence number `old` stored for `o`, at a node whose last
issued number is `myLsaSeq`: keeps it, or moves it forward in serial order, to the number of
the LSA of `o` it carries or, on the node's own origin, to `myLsaSeq + 1`. -/
def SeqStep (myNodeId o : UInt16) (myLsaSeq : UInt32) (ev : RoutingEvent) (old new : UInt32) :
    Prop :=
  new = old ∨ (seqAfter new old = true ∧
    (ev.lsaKey = some (o, new) ∨ (o = myNodeId ∧ new = myLsaSeq + 1)))

theorem SeqStep.refl (myNodeId o : UInt16) (myLsaSeq : UInt32) (ev : RoutingEvent) (a : UInt32) :
    SeqStep myNodeId o myLsaSeq ev a a := .inl rfl

/-- **Where a store leaves a valid origin**: in its slot, which the store wrote only if the
origin is the one stored. -/
theorem SlotFor.store_find {lsdb : Lsdb} (h : LsdbInv lsdb) {o' : UInt16} {i' : Fin wkiMaxPeers}
    (hs : SlotFor lsdb o' i') {e : LsdbEntry} (hv : e.valid = true) (ho : e.originNode = o')
    (hnum : e.numNeighbors.toNat ≤ wkiMaxNeighborsPerLsa) {o : UInt16} {i : Fin wkiMaxPeers}
    (hi : lsdbFind lsdb o = some i) :
    lsdbFind (Function.update (lsdbClaim lsdb i' o') i' e) o = some i ∧ (o = o' → i' = i) ∧
      (o ≠ o' → Function.update (lsdbClaim lsdb i' o') i' e i = lsdb i) := by
  by_cases hoo : o = o'
  · subst hoo
    have hii : i' = i := by
      rcases hs with hf | ⟨hnone, -⟩
      · exact Option.some.inj (hf.symm.trans hi)
      · rw [hnone] at hi
        cases hi
    subst hii
    exact ⟨(hs.find_self h hv ho hnum).2, fun _ => rfl, fun hne => absurd rfl hne⟩
  · obtain ⟨hfind, hkept⟩ := hs.frame hv ho hoo
    exact ⟨hfind.trans hi, fun hne => absurd hne hoo, fun _ => hkept i hi⟩

theorem RoutingInv.lsa_forward {myNodeId : UInt16} {st : RoutingState}
    (h : RoutingInv myNodeId st) (peers : List WkiPeer) (srcNode : UInt16) (payload : List UInt8)
    {o : UInt16} {i j : Fin wkiMaxPeers} (hi : lsdbFind st.lsdb o = some i)
    (hj : lsdbFind (handleLsa myNodeId peers srcNode payload st).1.lsdb o = some j) :
    j = i ∧ SeqStep myNodeId o st.myLsaSeq (.lsa peers srcNode payload) (st.lsdb i).lsaSeq
      ((handleLsa myNodeId peers srcNode payload st).1.lsdb i).lsaSeq := by
  rcases handleLsa_cases myNodeId peers srcNode payload st with heq | ⟨i', hacc, heq⟩
  · rw [heq] at hj ⊢
    exact ⟨Option.some.inj (hj.symm.trans hi), .refl _ _ _ _ _⟩
  · rw [heq] at hj ⊢
    obtain ⟨e, hst, hv, ho, hseq, hnum⟩ := storeLsa_eq (lsdbClaim st.lsdb i' _) i' payload
    simp only [lsdbClaim_self] at hv ho
    dsimp only at hj ⊢
    rw [hst] at hj ⊢
    obtain ⟨hfind, hsame, hkept⟩ := hacc.slot.store_find h.lsdb hv ho hnum hi
    refine ⟨Option.some.inj (hj.symm.trans hfind), ?_⟩
    by_cases hoo : o = (LsaPayload.read payload).originNode
    · -- the LSA of the origin itself, stored only when newer
      obtain rfl := hsame hoo
      rw [Function.update_self, hseq]
      exact .inr ⟨hacc.newer (hoo ▸ hi), .inl (by rw [hoo]; rfl)⟩
    · rw [hkept hoo]
      exact .refl _ _ _ _ _

theorem RoutingInv.generate_forward {myNodeId : UInt16} {st : RoutingState}
    (h : RoutingInv myNodeId st) (env : WkiEnv) (nowUs doneUs : UInt64)
    {o : UInt16} {i j : Fin wkiMaxPeers} (hi : lsdbFind st.lsdb o = some i)
    (hj : lsdbFind (lsaGenerateAndFlood myNodeId env nowUs doneUs st).1.lsdb o = some j) :
    j = i ∧ SeqStep myNodeId o st.myLsaSeq (.generate env nowUs doneUs) (st.lsdb i).lsaSeq
      ((lsaGenerateAndFlood myNodeId env nowUs doneUs st).1.lsdb i).lsaSeq := by
  rcases lsaGenerateAndFlood_cases myNodeId env nowUs doneUs st with
    ⟨hl, -⟩ | ⟨hl, -, -⟩ | ⟨i', hslot, hl, -⟩
  · rw [hl] at hj ⊢
    exact ⟨Option.some.inj (hj.symm.trans hi), .refl _ _ _ _ _⟩
  · rw [hl] at hj ⊢
    exact ⟨Option.some.inj (hj.symm.trans hi), .refl _ _ _ _ _⟩
  · obtain ⟨e, hst, hv, ho, hseq, hnum⟩ := storeOwnLsa_eq (lsdbClaim st.lsdb i' myNodeId) i'
      (st.myLsaSeq + 1) env.rdmaZoneBitmap (collectDirectNeighbors_length env.peers)
    simp only [lsdbClaim_self] at hv ho
    rw [hl, hst] at hj ⊢
    obtain ⟨hfind, hsame, hkept⟩ := hslot.store_find h.lsdb hv ho hnum hi
    refine ⟨Option.some.inj (hj.symm.trans hfind), ?_⟩
    by_cases hoo : o = myNodeId
    · obtain rfl := hsame hoo
      rw [Function.update_self, hseq, h.ownSeq i' (hoo ▸ hi)]
      exact .inr ⟨seqAfter_add_one _, .inr ⟨hoo, rfl⟩⟩
    · rw [hkept hoo]
      exact .refl _ _ _ _ _

theorem RoutingInv.invalidate_forward {myNodeId : UInt16} {st : RoutingState}
    (h : RoutingInv myNodeId st) (nodeId : UInt16) {o : UInt16} {i j : Fin wkiMaxPeers}
    (hi : lsdbFind st.lsdb o = some i) (hj : lsdbFind (routingInvalidateNode nodeId st).lsdb o = some j) :
    j = i ∧ (routingInvalidateNode nodeId st).lsdb i = st.lsdb i := by
  unfold routingInvalidateNode at hj ⊢
  cases hfind : lsdbFind st.lsdb nodeId with
  | none =>
    rw [hfind] at hj
    exact ⟨Option.some.inj (hj.symm.trans hi), rfl⟩
  | some k =>
    rw [hfind] at hj
    dsimp only at hj ⊢
    have hjk : j ≠ k := fun hjk => by
      have := (lsdbFind_some hj).1
      rw [hjk, Function.update_self] at this
      simp at this
    have hj' := lsdbFind_some hj
    rw [Function.update_of_ne hjk] at hj'
    have hji : j = i :=
      Option.some.inj ((lsdbFind_of_unique h.lsdb.unique hj'.1 hj'.2).symm.trans hi)
    subst hji
    exact ⟨rfl, Function.update_of_ne hjk _ _⟩

theorem routingInit_find {st : RoutingState} {o : UInt16} {j : Fin wkiMaxPeers}
    (hj : lsdbFind (routingInit st).lsdb o = some j) : routingInit st = st := by
  unfold routingInit at hj ⊢
  split
  · rfl
  · rename_i hinit
    rw [if_neg hinit] at hj
    simpa using (lsdbFind_some hj).1

/-- **One event moves an origin's sequence number forward**: an origin valid before and after
an event stays in its slot, and its stored sequence number stays or moves on in serial order. -/
theorem RoutingInv.step_seq_forward {myNodeId : UInt16} {st : RoutingState}
    (h : RoutingInv myNodeId st) (ev : RoutingEvent) {o : UInt16} {i j : Fin wkiMaxPeers}
    (hi : lsdbFind st.lsdb o = some i) (hj : lsdbFind (ev.apply myNodeId st).1.lsdb o = some j) :
    j = i ∧ SeqStep myNodeId o st.myLsaSeq ev (st.lsdb i).lsaSeq ((ev.apply myNodeId st).1.lsdb i).lsaSeq := by
  cases ev with
  | lsa peers srcNode payload => exact h.lsa_forward peers srcNode payload hi hj
  | generate env nowUs doneUs => exact h.generate_forward env nowUs doneUs hi hj
  | invalidate nodeId =>
    obtain ⟨hji, hkept⟩ := h.invalidate_forward nodeId hi hj
    exact ⟨hji, by rw [RoutingEvent.apply, hkept]; exact .refl _ _ _ _ _⟩
  | init =>
    have hst := routingInit_find hj
    simp only [RoutingEvent.apply, hst] at hj ⊢
    exact ⟨Option.some.inj (hj.symm.trans hi), .refl _ _ _ _ _⟩

/-- **`handle_lsa` refuses the node's own LSAs.** -/
theorem handleLsa_own (myNodeId : UInt16) (peers : List WkiPeer) (srcNode : UInt16)
    (payload : List UInt8) (st : RoutingState) (hown : (LsaPayload.read payload).originNode = myNodeId) :
    handleLsa myNodeId peers srcNode payload st = (st, none) := by
  rcases handleLsa_cases myNodeId peers srcNode payload st with heq | ⟨i, hacc, -⟩
  · exact heq
  · exact absurd hown hacc.other

/-! ## Re-stores within a window -/

/-- The events of a run, each with the flood it sends. -/
def runFloods (myNodeId : UInt16) : RoutingState → List RoutingEvent →
    List (RoutingEvent × Option (List UInt16))
  | _, [] => []
  | st, ev :: evs => (ev, (ev.apply myNodeId st).2) :: runFloods myNodeId (ev.apply myNodeId st).1 evs

/-- `o` is valid, with a stored sequence number less than `2^31` after `s`. -/
def WithinWindow (o : UInt16) (s : UInt32) (st : RoutingState) : Prop :=
  ∃ i, lsdbFind st.lsdb o = some i ∧ offset s (st.lsdb i).lsaSeq < 2 ^ 31

/-- A run from `st` in which `o` stays valid after every event and every LSA of origin `o`
carries a sequence number less than `2^31` after `s`. -/
def WindowRun (myNodeId o : UInt16) (s : UInt32) : RoutingState → List RoutingEvent → Prop
  | _, [] => True
  | st, ev :: evs => (∀ t, ev.lsaKey = some (o, t) → offset s t < 2 ^ 31) ∧
      (lsdbFind (ev.apply myNodeId st).1.lsdb o).isSome ∧
      WindowRun myNodeId o s (ev.apply myNodeId st).1 evs

/-- Nothing less than `2^31` after `s` precedes it. -/
theorem seqAfter_of_offset_lt {s t : UInt32} (h : offset s t < 2 ^ 31) : seqAfter s t = false := by
  have hnot : ¬ Precedes t s := by
    rw [precedes_iff_offset_lt h (by simp)]
    simp
  simpa [seqAfter, seqBefore] using hnot

/-- **One event in the window**: it does not store the LSA `(o, s)` again, and leaves `o`, if
valid, within the window. -/
theorem RoutingInv.window_step {myNodeId : UInt16} {st : RoutingState} (h : RoutingInv myNodeId st)
    {o : UInt16} {s : UInt32} (hne : o ≠ myNodeId) (hw : WithinWindow o s st) (ev : RoutingEvent)
    (hev : ∀ t, ev.lsaKey = some (o, t) → offset s t < 2 ^ 31) :
    (ev.lsaKey = some (o, s) → (ev.apply myNodeId st).2 = none) ∧
      ((lsdbFind (ev.apply myNodeId st).1.lsdb o).isSome → WithinWindow o s (ev.apply myNodeId st).1) := by
  obtain ⟨i, hi, hin⟩ := hw
  refine ⟨fun hkey => ?_, fun hsome => ?_⟩
  · -- only an LSA event carries a key; stored, it would be after the stored number
    cases ev with
    | lsa peers srcNode payload =>
      simp only [RoutingEvent.lsaKey, Option.some.injEq, Prod.mk.injEq] at hkey
      obtain ⟨ho, hs⟩ := hkey
      rcases handleLsa_cases myNodeId peers srcNode payload st with heq | ⟨i', hacc, -⟩
      · rw [RoutingEvent.apply, heq]
      · have hslot := hacc.slot
        rw [ho] at hslot
        have hii : i' = i := by
          rcases hslot with hf | ⟨hnone, -⟩
          · exact Option.some.inj (hf.symm.trans hi)
          · rw [hnone] at hi
            cases hi
        subst hii
        have hafter := hacc.newer (ho ▸ hi)
        rw [hs, seqAfter_of_offset_lt hin] at hafter
        cases hafter
    | generate => cases hkey
    | invalidate => cases hkey
    | init => cases hkey
  · obtain ⟨j, hj⟩ := Option.isSome_iff_exists.mp hsome
    obtain ⟨rfl, hstep⟩ := h.step_seq_forward ev hi hj
    refine ⟨j, hj, ?_⟩
    rcases hstep with heq | ⟨-, hkey | ⟨hown, -⟩⟩
    · rw [heq]
      exact hin
    · exact hev _ hkey
    · exact absurd hown hne

/-- **Within the window nothing is stored twice**: along a run in which `o` stays valid and its
LSAs carry numbers less than `2^31` after `s`, starting with `o` in that window, no event
stores and floods the LSA `(o, s)`. -/
theorem RoutingInv.window_no_restore {myNodeId : UInt16} {st : RoutingState}
    (h : RoutingInv myNodeId st) {o : UInt16} {s : UInt32} (hne : o ≠ myNodeId)
    (hw : WithinWindow o s st) {evs : List RoutingEvent} (hrun : WindowRun myNodeId o s st evs) :
    ∀ p ∈ runFloods myNodeId st evs, p.1.lsaKey = some (o, s) → p.2 = none := by
  -- induction on the run, carrying the invariant and the window
  induction evs generalizing st with
  | nil => simp [runFloods]
  | cons ev evs ih =>
    obtain ⟨hev, hsome, hrest⟩ := hrun
    obtain ⟨hnow, hnext⟩ := h.window_step hne hw ev hev
    intro p hp
    rcases List.mem_cons.mp hp with rfl | hp
    · exact hnow
    · exact ih (h.step ev) (hnext hsome) hrest p hp

/-- **The link-state database over every run** from the zero-initialised state: origins are
unique among valid slots and no slot counts more than `WKI_MAX_NEIGHBORS_PER_LSA` neighbours;
an origin valid across an event keeps its slot and its number stays or moves forward, to the
number of the LSA handled or, on the node's own origin, to `my_lsa_seq + 1`; the node's own LSAs
are refused; and a stored `(o, s)` is not stored again while `o` stays valid and its
LSAs stay less than `2^31` after `s`. -/
theorem lsdb_runs_keep_origins (myNodeId : UInt16) (evs : List RoutingEvent) :
    let st := runEvents myNodeId RoutingState.boot evs
    LsdbInv st.lsdb ∧
      (∀ ev o i j, lsdbFind st.lsdb o = some i → lsdbFind (ev.apply myNodeId st).1.lsdb o = some j →
        j = i ∧ SeqStep myNodeId o st.myLsaSeq ev (st.lsdb i).lsaSeq ((ev.apply myNodeId st).1.lsdb i).lsaSeq) ∧
      (∀ peers srcNode payload, (LsaPayload.read payload).originNode = myNodeId →
        handleLsa myNodeId peers srcNode payload st = (st, none)) ∧
      (∀ o s evs', o ≠ myNodeId → (∃ i, lsdbFind st.lsdb o = some i ∧ (st.lsdb i).lsaSeq = s) →
        WindowRun myNodeId o s st evs' →
        ∀ p ∈ runFloods myNodeId st evs', p.1.lsaKey = some (o, s) → p.2 = none) := by
  intro st
  have h : RoutingInv myNodeId st := (routingInv_boot myNodeId).run evs
  refine ⟨h.lsdb, fun ev o i j hi hj => h.step_seq_forward ev hi hj,
    fun peers srcNode payload hown => handleLsa_own myNodeId peers srcNode payload st hown,
    fun o s evs' hne ⟨i, hi, hs⟩ hrun => h.window_no_restore hne ⟨i, hi, ?_⟩ hrun⟩
  rw [hs, offset_self]
  decide

/-- Node `1` after init, an own LSA (number `1`, slot `0`) and the LSA `(2, 5)` from node `2`
(slot `1`): a second own LSA, on a changed zone bitmap, moves the own slot to
`my_lsa_seq + 1`; along the run that receives `(2, 5)` from node `3`, then `(2, 6)`, then
`(2, 5)` again from node `4`, the LSA `(2, 5)` is never flooded; and an LSA of origin `1` is
refused. -/
theorem lsdb_runs_keep_origins_own :
    let st := runEvents 1 RoutingState.boot
      [.init, .generate ⟨true, [], 0⟩ 1 1, .lsa [] 2 (lsaPayloadBytes 2 5 0 [])]
    let own : RoutingEvent := .generate ⟨true, [], 1⟩ 2000000 2000000
    let lsa : UInt16 → UInt32 → RoutingEvent := fun src seq => .lsa [] src (lsaPayloadBytes 2 seq 0 [])
    let slot0 : Fin wkiMaxPeers := ⟨0, by decide⟩
    (slot0 = slot0 ∧
        SeqStep 1 1 st.myLsaSeq own (st.lsdb slot0).lsaSeq ((own.apply 1 st).1.lsdb slot0).lsaSeq) ∧
      (∀ p ∈ runFloods 1 st [lsa 3 5, lsa 3 6, lsa 4 5], p.1.lsaKey = some (2, 5) → p.2 = none) ∧
      handleLsa 1 [] 2 (lsaPayloadBytes 1 5 0 []) st = (st, none) := by
  obtain ⟨-, hstep, hown, hwindow⟩ := lsdb_runs_keep_origins 1
    [.init, .generate ⟨true, [], 0⟩ 1 1, .lsa [] 2 (lsaPayloadBytes 2 5 0 [])]
  have hkey : ∀ src seq, (RoutingEvent.lsa [] src (lsaPayloadBytes 2 seq 0 [])).lsaKey = some (2, seq) →
      offset 5 seq < 2 ^ 31 →
      ∀ t, (RoutingEvent.lsa [] src (lsaPayloadBytes 2 seq 0 [])).lsaKey = some (2, t) →
        offset 5 t < 2 ^ 31 := by
    intro src seq hk hs t ht
    rw [hk] at ht
    cases ht
    exact hs
  dsimp only
  refine ⟨hstep _ 1 _ _ ?_ ?_, hwindow 2 5 _ (by decide) ⟨⟨1, by decide⟩, ?_, ?_⟩ ?_,
    hown [] 2 _ (by decide)⟩
  · decide +kernel
  · decide +kernel
  · decide +kernel
  · decide +kernel
  rw [WindowRun, WindowRun, WindowRun]
  exact ⟨hkey 3 5 (by decide +kernel) (by decide), by decide +kernel,
    hkey 3 6 (by decide +kernel) (by decide), by decide +kernel,
    hkey 4 5 (by decide +kernel) (by decide), by decide +kernel, trivial⟩

/-- **Serial order is not transitive**: node `1` stores and floods the LSAs of origin `2`
numbered `0`, `0x7FFFFFFF`, `0xFFFFFFFE` and `0`, each after the last, so it stores `(2, 0)`
twice while `2` stays valid. -/
theorem handleLsa_restore :
    let lsa : UInt32 → RoutingEvent := fun seq => .lsa [] 2 (lsaPayloadBytes 2 seq 0 [])
    (runFloods 1 RoutingState.boot [.init, lsa 0, lsa 0x7FFFFFFF, lsa 0xFFFFFFFE, lsa 0]).map
        (fun p => (p.1.lsaKey, p.2)) =
      [(none, none), (some (2, 0), some []), (some (2, 0x7FFFFFFF), some []),
        (some (2, 0xFFFFFFFE), some []), (some (2, 0), some [])] := by
  decide +kernel

end Wos.Wki
