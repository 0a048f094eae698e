import WosKernel.WkiRouting
import WosKernel.Lib.WeightedWalk

/-! # Shortest paths over the WKI link-state database (`wki_routing_recompute`)

`wki_routing_recompute` collects the node ids the database mentions (the node's own, every
valid origin and every neighbour it lists, skipping `WKI_NODE_INVALID` and
`WKI_NODE_BROADCAST`, at most `WKI_MAX_PEERS` of them), runs an `O(V^2)` Dijkstra from the
node's own index over the edges `u → n` of each `n` that `u`'s entry (`lsdb_find`) lists,
with cost 0 read as 1, and writes one route per reached node: its distance, its hop count and
the first hop of the path found.

The arrays `dist`, `next_hop`, `hops` and `visited` are functions on indices, in the source's
types (`uint32_t`, `uint16_t`, `uint8_t`); the proofs show that the sums neither overflow nor
reach the `WKI_COST_INFINITY` sentinel and that the hop counts fit their byte.  The peer-table
updates after the lock is released are not modelled (nothing here reads the peers' routing
fields).

An entry's neighbours are read below its `num_neighbors`, at most `WKI_MAX_NEIGHBORS_PER_LSA`
of them: what the source reads of an entry that lists at most that many, as every entry of the
routing runs does (`LsdbInv.bounded`); beyond it the source's `.at()` fails.

The result is `wki_routing_spf`: for a node with a valid id, on a database that mentions at most
`WKI_MAX_PEERS` node ids (`lsdbIds`), the routing table holds a valid entry for exactly the nodes
reachable from this one along the listed edges to valid ids (`spfAdj`), each with the distance,
the hop count of a shortest walk and that walk's first hop, and no two entries share a
destination.  It rests on `SpfInv`, the loop invariant of the search, kept by each round
(`SpfInv.step`, with Dijkstra's lemma `SpfInv.pick_opt`) and ending in a done search
(`spfLoop_done`).  Edges to `WKI_NODE_INVALID` or `WKI_NODE_BROADCAST` are not part of the
search: such an id, listed, is reachable in the graph as listed (`lsdbAdj`) yet never routed
(`wki_routing_broadcast_unrouted`).
-/

namespace Wos.Wki

open WeightedWalk

/-- `WKI_COST_INFINITY`. -/
def wkiCostInfinity : UInt32 := 0xFFFFFFFF

/-- The neighbour slots of an entry below its `num_neighbors`, the ones the loops read. -/
def LsdbEntry.listedNeighbors (entry : LsdbEntry) : List LsaNeighborEntry :=
  (List.finRange wkiMaxNeighborsPerLsa).filterMap fun k =>
    if k.val < entry.numNeighbors.toNat then some (entry.neighbors k) else none

/-! ## Collecting the nodes -/

/-- The `add_node` lambda: a new, valid id is appended while there is room. -/
def addNode (nodes : List UInt16) (nid : UInt16) : List UInt16 :=
  if nid = wkiNodeInvalid ∨ nid = wkiNodeBroadcast then nodes
  else if nid ∈ nodes then nodes
  else if nodes.length < wkiMaxPeers then nodes ++ [nid]
  else nodes

/-- Step 1: the node's own id, then each valid entry's origin and listed neighbours. -/
def collectNodes (myNodeId : UInt16) (lsdb : Lsdb) : List UInt16 :=
  (List.finRange wkiMaxPeers).foldl
    (fun nodes i =>
      if !(lsdb i).valid then nodes
      else ((lsdb i).listedNeighbors.map (·.nodeId)).foldl addNode (addNode nodes (lsdb i).originNode))
    (addNode [] myNodeId)

/-- The `find_idx` lambda; `none` is `INVALID_INDEX`. -/
def findIdx (nodes : List UInt16) (nid : UInt16) : Option Nat := nodes.findIdx? (· == nid)

/-! ## The search -/

/-- The arrays of the search, by node index. -/
structure SpfState where
  dist : Nat → UInt32
  nextHop : Nat → UInt16
  hops : Nat → UInt8
  visited : Nat → Bool

/-- The arrays after their initialisation, with the node's own distance 0. -/
def SpfState.init (myIdx : Nat) : SpfState where
  dist i := if i = myIdx then 0 else wkiCostInfinity
  nextHop _ := wkiNodeInvalid
  hops _ := 0
  visited _ := false

/-- The scan for `u`: the first unvisited index of least distance below the sentinel. -/
def pickUnvisited (numNodes : Nat) (st : SpfState) : Option Nat :=
  ((List.range numNodes).foldl
    (fun (acc : Option Nat × UInt32) i =>
      if !st.visited i && st.dist i < acc.2 then (some i, st.dist i) else acc)
    (none, wkiCostInfinity)).1

/-- The cost of an edge: the advertised one, or `WKI_DEFAULT_LINK_COST` for 0. -/
def edgeCost (nbr : LsaNeighborEntry) : UInt16 :=
  if nbr.linkCost = 0 then wkiDefaultLinkCost else nbr.linkCost

/-- The relaxation of `u`'s edge to the neighbour `nbr`. -/
def relax (nodes : List UInt16) (myIdx u : Nat) (st : SpfState) (nbr : LsaNeighborEntry) : SpfState :=
  match findIdx nodes nbr.nodeId with
  | none => st
  | some v =>
    if st.visited v then st
    else
      let alt := st.dist u + (edgeCost nbr).toUInt32
      if alt < st.dist v then
        { st with
          dist := Function.update st.dist v alt
          hops := Function.update st.hops v (st.hops u + 1)
          -- the first hop on the path: the neighbour itself out of the node's own index
          nextHop := Function.update st.nextHop v (if u = myIdx then nbr.nodeId else st.nextHop u) }
      else st

/-- The arrays once `u` is marked visited. -/
def SpfState.visit (st : SpfState) (u : Nat) : SpfState :=
  { st with visited := Function.update st.visited u true }

/-- One round of the main loop: `none` when no unvisited node has a finite distance. -/
def spfStep (lsdb : Lsdb) (nodes : List UInt16) (myIdx : Nat) (st : SpfState) : Option SpfState :=
  match pickUnvisited nodes.length st with
  | none => none
  | some u =>
    match lsdbFind lsdb (nodes.getD u 0) with
    -- a node without an entry of its own is a leaf: no edges to relax
    | none => some (st.visit u)
    | some i => some ((lsdb i).listedNeighbors.foldl (relax nodes myIdx u) (st.visit u))

/-- The main loop, for at most `fuel` rounds (the source runs `num_nodes`). -/
def spfLoop (lsdb : Lsdb) (nodes : List UInt16) (myIdx : Nat) : Nat → SpfState → SpfState
  | 0, st => st
  | fuel + 1, st =>
    match spfStep lsdb nodes myIdx st with
    | none => st
    | some st' => spfLoop lsdb nodes myIdx fuel st'

/-! ## The routing table -/

/-- `RoutingEntry`. -/
structure RoutingEntry where
  dstNode : UInt16 := wkiNodeInvalid
  nextHop : UInt16 := wkiNodeInvalid
  cost : UInt32 := wkiCostInfinity
  hopCount : UInt8 := 0
  valid : Bool := false
deriving DecidableEq, Repr

/-- `s_routing_table`. -/
abbrev RoutingTable := Fin wkiMaxPeers → RoutingEntry

/-- The routes step 3 writes, in index order: one per reached index other than the node's own. -/
def spfRoutes (nodes : List UInt16) (myIdx : Nat) (st : SpfState) : List RoutingEntry :=
  (List.range nodes.length).filterMap fun i =>
    if i = myIdx then none
    else if st.dist i = wkiCostInfinity then none
    else some { dstNode := nodes.getD i 0, nextHop := st.nextHop i, cost := st.dist i,
                hopCount := st.hops i, valid := true }

/-- Step 3: every slot marked invalid, then the routes written from slot 0 on; a route past the
last slot is the one the source's `route_count >= WKI_MAX_PEERS` check drops. -/
def routingTableFill (routes : List RoutingEntry) (table : RoutingTable) : RoutingTable :=
  fun k => routes[k.val]?.getD { table k with valid := false }

/-- `wki_routing_recompute` on the routing table: unchanged when the node's own id is not
collected, else refilled from the search. -/
def wkiRoutingRecompute (myNodeId : UInt16) (lsdb : Lsdb) (table : RoutingTable) : RoutingTable :=
  let nodes := collectNodes myNodeId lsdb
  match findIdx nodes myNodeId with
  | none => table
  | some myIdx =>
    routingTableFill (spfRoutes nodes myIdx (spfLoop lsdb nodes myIdx nodes.length (SpfState.init myIdx)))
      table

/-! ## The graph the routes are about -/

/-- An id a route can have: neither `WKI_NODE_INVALID` nor `WKI_NODE_BROADCAST`. -/
def IsNodeId (v : UInt16) : Prop := v ≠ wkiNodeInvalid ∧ v ≠ wkiNodeBroadcast

instance (v : UInt16) : Decidable (IsNodeId v) := inferInstanceAs (Decidable (_ ∧ _))

/-- The edges out of `u`: to each node id its database entry lists, at its cost. -/
def spfAdj (lsdb : Lsdb) (u : UInt16) : List (UInt16 × ℕ) :=
  match lsdbFind lsdb u with
  | none => []
  | some i =>
    ((lsdb i).listedNeighbors.filter fun nbr => decide (IsNodeId nbr.nodeId)).map
      fun nbr => (nbr.nodeId, (edgeCost nbr).toNat)

/-- The ids step 1 offers `add_node` after the node's own, in order: each valid entry's origin,
then the neighbours it lists. -/
def lsdbIdList (lsdb : Lsdb) : List UInt16 :=
  ((List.finRange wkiMaxPeers).filter fun i => (lsdb i).valid).flatMap fun i =>
    (lsdb i).originNode :: (lsdb i).listedNeighbors.map (·.nodeId)

/-- The node ids the database mentions, other than `WKI_NODE_INVALID` and `WKI_NODE_BROADCAST`. -/
def lsdbIds (lsdb : Lsdb) : Finset UInt16 := (lsdbIdList lsdb).toFinset.filter IsNodeId

/-! ## Edges and indices -/

theorem mem_spfAdj {lsdb : Lsdb} {u t : UInt16} {c : ℕ} :
    (t, c) ∈ spfAdj lsdb u ↔ ∃ i, lsdbFind lsdb u = some i ∧ ∃ nbr ∈ (lsdb i).listedNeighbors,
      IsNodeId nbr.nodeId ∧ nbr.nodeId = t ∧ (edgeCost nbr).toNat = c := by
  unfold spfAdj
  cases lsdbFind lsdb u with
  | none => simp
  | some i => simp [and_assoc]

theorem spfAdj_of_find_none {lsdb : Lsdb} {u : UInt16} (h : lsdbFind lsdb u = none) :
    spfAdj lsdb u = [] := by
  simp [spfAdj, h]

/-- With distinct ids, `find_idx` finds exactly the index holding the id. -/
theorem findIdx_eq_some {nodes : List UInt16} (hnd : nodes.Nodup) {t : UInt16} {y : Nat} :
    findIdx nodes t = some y ↔ y < nodes.length ∧ nodes.getD y 0 = t := by
  unfold findIdx
  rw [List.findIdx?_eq_some_iff_getElem]
  constructor
  · rintro ⟨hy, heq, -⟩
    exact ⟨hy, by rw [List.getD_eq_getElem _ _ hy]; simpa using heq⟩
  · rintro ⟨hy, heq⟩
    rw [List.getD_eq_getElem _ _ hy] at heq
    refine ⟨hy, by simpa using heq, fun j hj hne => ?_⟩
    have hjy : nodes[j] = nodes[y] := by simpa [heq] using hne
    exact absurd (hnd.getElem_inj_iff.mp hjy) (by omega)

/-! ## The collected nodes -/

/-- What step 1 keeps of the ids it was offered (`seen`): distinct valid ids, each offered, and
every valid offered id unless the array is full. -/
structure Collected (seen nodes : List UInt16) : Prop where
  nodup : nodes.Nodup
  sub : ∀ t ∈ nodes, t ∈ seen ∧ IsNodeId t
  full : ∀ t ∈ seen, IsNodeId t → t ∈ nodes ∨ wkiMaxPeers ≤ nodes.length
  le : nodes.length ≤ wkiMaxPeers

theorem addNode_subset (nodes : List UInt16) (nid : UInt16) : nodes ⊆ addNode nodes nid := by
  unfold addNode
  split_ifs <;> simp

theorem Collected.addNode {seen nodes : List UInt16} (h : Collected seen nodes) (nid : UInt16) :
    Collected (seen ++ [nid]) (addNode nodes nid) := by
  unfold Wos.Wki.addNode
  split_ifs with hbad hmem hroom
  · refine ⟨h.nodup, fun t ht => ⟨List.mem_append_left _ (h.sub t ht).1, (h.sub t ht).2⟩, ?_, h.le⟩
    intro t ht hid
    rcases List.mem_append.mp ht with ht | ht
    · exact h.full t ht hid
    · rw [List.mem_singleton.mp ht] at hid
      exact absurd hbad (by unfold IsNodeId at hid; tauto)
  · refine ⟨h.nodup, fun t ht => ⟨List.mem_append_left _ (h.sub t ht).1, (h.sub t ht).2⟩, ?_, h.le⟩
    intro t ht hid
    rcases List.mem_append.mp ht with ht | ht
    · exact h.full t ht hid
    · exact .inl (List.mem_singleton.mp ht ▸ hmem)
  · have hid : IsNodeId nid := by unfold IsNodeId; tauto
    refine ⟨h.nodup.append (List.nodup_singleton nid) (by simpa using hmem), ?_, ?_, ?_⟩
    · intro t ht
      rcases List.mem_append.mp ht with ht | ht
      · exact ⟨List.mem_append_left _ (h.sub t ht).1, (h.sub t ht).2⟩
      · rw [List.mem_singleton.mp ht]; exact ⟨by simp, hid⟩
    · intro t ht htid
      rcases List.mem_append.mp ht with ht | ht
      · rcases h.full t ht htid with hin | hfull
        · exact .inl (List.mem_append_left _ hin)
        · omega
      · exact .inl (by simp [List.mem_singleton.mp ht])
    · simp only [List.length_append, List.length_singleton]; omega
  · refine ⟨h.nodup, fun t ht => ⟨List.mem_append_left _ (h.sub t ht).1, (h.sub t ht).2⟩, ?_, h.le⟩
    intro t _ _
    exact .inr (by omega)

theorem Collected.foldl {seen nodes : List UInt16} (h : Collected seen nodes) (l : List UInt16) :
    Collected (seen ++ l) (l.foldl Wos.Wki.addNode nodes) := by
  induction l generalizing seen nodes with
  | nil => simpa using h
  | cons a l ih => simpa using ih (h.addNode a)

theorem subset_foldl_addNode (nodes l : List UInt16) : nodes ⊆ l.foldl addNode nodes := by
  induction l generalizing nodes with
  | nil => exact List.Subset.refl _
  | cons a l ih => exact List.Subset.trans (addNode_subset nodes a) (ih _)

/-- Step 1 offers the node's own id first, then the database's ids in order. -/
theorem collectNodes_eq (myNodeId : UInt16) (lsdb : Lsdb) :
    collectNodes myNodeId lsdb = (lsdbIdList lsdb).foldl addNode (addNode [] myNodeId) := by
  unfold collectNodes lsdbIdList
  rw [List.foldl_flatMap, List.foldl_filter]
  congr 1
  funext nodes i
  cases (lsdb i).valid <;> rfl

theorem collectNodes_collected (myNodeId : UInt16) (lsdb : Lsdb) :
    Collected (myNodeId :: lsdbIdList lsdb) (collectNodes myNodeId lsdb) := by
  have h0 : Collected [] [] := ⟨List.nodup_nil, by simp, by simp, by simp⟩
  rw [collectNodes_eq]
  simpa using (h0.addNode myNodeId).foldl (lsdbIdList lsdb)

theorem mem_collectNodes_self {myNodeId : UInt16} (hmy : IsNodeId myNodeId) (lsdb : Lsdb) :
    myNodeId ∈ collectNodes myNodeId lsdb := by
  have h1 : addNode [] myNodeId = [myNodeId] := by
    unfold addNode IsNodeId at *
    simp [hmy.1, hmy.2, wkiMaxPeers]
  rw [collectNodes_eq, h1]
  exact subset_foldl_addNode _ _ (List.mem_singleton_self _)

theorem mem_lsdbIds {lsdb : Lsdb} {t : UInt16} (hid : IsNodeId t) {i : Fin wkiMaxPeers}
    (hv : (lsdb i).valid) (ht : t = (lsdb i).originNode ∨ t ∈ (lsdb i).listedNeighbors.map (·.nodeId)) :
    t ∈ lsdbIds lsdb := by
  unfold lsdbIds lsdbIdList
  simp only [Finset.mem_filter, List.mem_toFinset, List.mem_flatMap, List.mem_filter,
    List.mem_finRange, true_and, List.mem_cons]
  exact ⟨⟨i, hv, ht⟩, hid⟩

theorem mem_lsdbIds_of_find {lsdb : Lsdb} {u : UInt16} (hu : IsNodeId u) {i : Fin wkiMaxPeers}
    (h : lsdbFind lsdb u = some i) : u ∈ lsdbIds lsdb :=
  mem_lsdbIds hu (lsdbFind_some h).1 (.inl (lsdbFind_some h).2.symm)

theorem mem_lsdbIds_of_adj {lsdb : Lsdb} {u t : UInt16} {c : ℕ} (h : (t, c) ∈ spfAdj lsdb u) :
    t ∈ lsdbIds lsdb := by
  obtain ⟨i, hi, nbr, hnbr, hid, rfl, -⟩ := mem_spfAdj.mp h
  exact mem_lsdbIds hid (lsdbFind_some hi).1 (.inr (List.mem_map_of_mem hnbr))

/-- When the database mentions at most `WKI_MAX_PEERS` ids, the node's own among them, step 1
keeps them all. -/
theorem lsdbIds_subset_collectNodes {myNodeId : UInt16} {lsdb : Lsdb} (hmy : myNodeId ∈ lsdbIds lsdb)
    (hcard : (lsdbIds lsdb).card ≤ wkiMaxPeers) {t : UInt16} (ht : t ∈ lsdbIds lsdb) :
    t ∈ collectNodes myNodeId lsdb := by
  have hc := collectNodes_collected myNodeId lsdb
  have ht' := Finset.mem_filter.mp ht
  rcases hc.full t (List.mem_cons_of_mem _ (List.mem_toFinset.mp ht'.1)) ht'.2 with hin | hfull
  · exact hin
  · have hsub : (collectNodes myNodeId lsdb).toFinset ⊆ lsdbIds lsdb := by
      intro x hx
      obtain ⟨hseen, hid⟩ := hc.sub x (List.mem_toFinset.mp hx)
      rcases List.mem_cons.mp hseen with rfl | hx'
      · exact hmy
      · exact Finset.mem_filter.mpr ⟨List.mem_toFinset.mpr hx', hid⟩
    have hle : (lsdbIds lsdb).card ≤ (collectNodes myNodeId lsdb).toFinset.card := by
      rw [List.toFinset_card_of_nodup hc.nodup]; omega
    rw [← List.mem_toFinset, Finset.eq_of_subset_of_card_le hsub hle]
    exact ht

/-- Every node reachable from this one is collected. -/
theorem reachable_mem_collectNodes {myNodeId : UInt16} {lsdb : Lsdb} (hmy : IsNodeId myNodeId)
    (hcard : (lsdbIds lsdb).card ≤ wkiMaxPeers) {t : UInt16} (ht : Reachable (spfAdj lsdb) myNodeId t) :
    t ∈ collectNodes myNodeId lsdb := by
  obtain ⟨vs, w, hw⟩ := ht
  cases hfind : lsdbFind lsdb myNodeId with
  | none =>
    obtain ⟨rfl, -⟩ := hw.eq_of_adj_nil (spfAdj_of_find_none hfind)
    exact mem_collectNodes_self hmy lsdb
  | some i =>
    have hself := mem_lsdbIds_of_find hmy hfind
    cases hw with
    | nil => exact lsdbIds_subset_collectNodes hself hcard hself
    | snoc _ hadj => exact lsdbIds_subset_collectNodes hself hcard (mem_lsdbIds_of_adj hadj)

/-! ## The relaxations of one round -/

section Relax

variable (nodes : List UInt16) (myIdx u : Nat)

/-- What one relaxation can do: nothing, or lower an unvisited index's distance to `u`'s plus
the edge's cost, one hop after `u`. -/
theorem relax_cases (st : SpfState) (nbr : LsaNeighborEntry) :
    relax nodes myIdx u st nbr = st ∨
    ∃ v, findIdx nodes nbr.nodeId = some v ∧ st.visited v = false ∧
      st.dist u + (edgeCost nbr).toUInt32 < st.dist v ∧
      relax nodes myIdx u st nbr =
        { st with
          dist := Function.update st.dist v (st.dist u + (edgeCost nbr).toUInt32)
          hops := Function.update st.hops v (st.hops u + 1)
          nextHop := Function.update st.nextHop v (if u = myIdx then nbr.nodeId else st.nextHop u) } := by
  unfold relax
  cases hf : findIdx nodes nbr.nodeId with
  | none => exact .inl rfl
  | some v =>
    by_cases hv : st.visited v
    · simp [hv]
    · by_cases hlt : st.dist u + (edgeCost nbr).toUInt32 < st.dist v
      · exact .inr ⟨v, rfl, by simpa using hv, hlt, by simp [hv, hlt]⟩
      · simp [hv, hlt]

@[simp]
theorem relax_visited (st : SpfState) (nbr : LsaNeighborEntry) :
    (relax nodes myIdx u st nbr).visited = st.visited := by
  rcases relax_cases nodes myIdx u st nbr with h | ⟨v, -, -, -, h⟩ <;> rw [h]

/-- After the relaxation of an edge to an unvisited index, its distance is at most the edge's. -/
theorem relax_dist_le {st : SpfState} {nbr : LsaNeighborEntry} {v : Nat}
    (hf : findIdx nodes nbr.nodeId = some v) (hv : st.visited v = false) :
    (relax nodes myIdx u st nbr).dist v ≤ st.dist u + (edgeCost nbr).toUInt32 := by
  unfold relax
  simp only [hf, hv, Bool.false_eq_true, ite_false]
  by_cases hlt : st.dist u + (edgeCost nbr).toUInt32 < st.dist v
  · rw [if_pos hlt]; simp
  · rw [if_neg hlt]; exact UInt32.not_lt.mp hlt

/-- How relaxations from `u` over the edges `L` took `st` to `st'` at the index `j`: untouched,
or lowered along one of the edges to `u`'s distance plus its cost, one hop after `u`, with the
first hop inherited from `u` (or the edge's end, out of the node's own index). -/
def RelaxedAt (L : List LsaNeighborEntry) (st st' : SpfState) (j : Nat) : Prop :=
  (st'.dist j = st.dist j ∧ st'.hops j = st.hops j ∧ st'.nextHop j = st.nextHop j) ∨
  (st.visited j = false ∧ st'.dist j < st.dist j ∧ ∃ nbr ∈ L, findIdx nodes nbr.nodeId = some j ∧
    st'.dist j = st.dist u + (edgeCost nbr).toUInt32 ∧ st'.hops j = st.hops u + 1 ∧
    st'.nextHop j = if u = myIdx then nbr.nodeId else st.nextHop u)

variable {nodes myIdx u}

theorem RelaxedAt.dist_le {L : List LsaNeighborEntry} {st st' : SpfState} {j : Nat}
    (h : RelaxedAt nodes myIdx u L st st' j) : st'.dist j ≤ st.dist j := by
  rcases h with ⟨h, -⟩ | ⟨-, h, -⟩
  · rw [h]; exact UInt32.le_refl _
  · exact UInt32.le_of_lt h

/-- A visited index is never relaxed. -/
theorem RelaxedAt.of_visited {L : List LsaNeighborEntry} {st st' : SpfState} {j : Nat}
    (h : RelaxedAt nodes myIdx u L st st' j) (hj : st.visited j = true) :
    st'.dist j = st.dist j ∧ st'.hops j = st.hops j ∧ st'.nextHop j = st.nextHop j := by
  rcases h with h | ⟨hv, -⟩
  · exact h
  · rw [hj] at hv; cases hv

theorem relax_relaxedAt (st : SpfState) (nbr : LsaNeighborEntry) (j : Nat) :
    RelaxedAt nodes myIdx u [nbr] st (relax nodes myIdx u st nbr) j := by
  rcases relax_cases nodes myIdx u st nbr with h | ⟨v, hf, hv, hlt, h⟩
  · rw [h]; exact .inl ⟨rfl, rfl, rfl⟩
  · rw [h]
    by_cases hjv : j = v
    · subst hjv
      exact .inr ⟨hv, by simpa using hlt, nbr, List.mem_singleton_self _, hf, by simp, by simp, by simp⟩
    · exact .inl (by simp [Function.update_of_ne hjv])

/-- Relaxations from a visited `u` compose: `u`'s own labels stay as they were. -/
theorem RelaxedAt.trans {L₁ L₂ : List LsaNeighborEntry} {st st₁ st₂ : SpfState}
    (h₁ : ∀ j, RelaxedAt nodes myIdx u L₁ st st₁ j) (hvis : st₁.visited = st.visited)
    (hu : st.visited u = true) (h₂ : ∀ j, RelaxedAt nodes myIdx u L₂ st₁ st₂ j) (j : Nat) :
    RelaxedAt nodes myIdx u (L₁ ++ L₂) st st₂ j := by
  obtain ⟨hdu, hhu, hnu⟩ := (h₁ u).of_visited hu
  rcases h₂ j with ⟨hd, hh, hn⟩ | ⟨hv, hlt, nbr, hmem, hf, hd, hh, hn⟩
  · rcases h₁ j with ⟨hd', hh', hn'⟩ | ⟨hv', hlt', nbr, hmem, hf, hd', hh', hn'⟩
    · exact .inl ⟨hd.trans hd', hh.trans hh', hn.trans hn'⟩
    · exact .inr ⟨hv', hd ▸ hlt', nbr, List.mem_append_left _ hmem, hf, hd.trans hd', hh.trans hh',
        hn.trans hn'⟩
  · refine .inr ⟨hvis ▸ hv, UInt32.lt_of_lt_of_le hlt (h₁ j).dist_le, nbr, List.mem_append_right _ hmem,
      hf, ?_, ?_, ?_⟩
    · rw [hd, hdu]
    · rw [hh, hhu]
    · rw [hn, hnu]

theorem foldl_relax_visited (L : List LsaNeighborEntry) (st : SpfState) :
    (L.foldl (relax nodes myIdx u) st).visited = st.visited := by
  induction L generalizing st with
  | nil => rfl
  | cons a L ih => rw [List.foldl_cons, ih, relax_visited]

/-- **The relaxations of a round**, each index at once. -/
theorem foldl_relax_relaxedAt (L : List LsaNeighborEntry) {st : SpfState} (hu : st.visited u = true)
    (j : Nat) : RelaxedAt nodes myIdx u L st (L.foldl (relax nodes myIdx u) st) j := by
  induction L generalizing st j with
  | nil => exact .inl ⟨rfl, rfl, rfl⟩
  | cons a L ih =>
    rw [List.foldl_cons, ← List.singleton_append]
    exact RelaxedAt.trans (relax_relaxedAt st a) (relax_visited nodes myIdx u st a) hu
      (ih (by rw [relax_visited]; exact hu)) j

/-- After the round, every edge of it to an unvisited index bounds that index's distance. -/
theorem foldl_relax_le {L : List LsaNeighborEntry} {st : SpfState} (hu : st.visited u = true)
    {nbr : LsaNeighborEntry} (hmem : nbr ∈ L) {j : Nat} (hf : findIdx nodes nbr.nodeId = some j)
    (hj : st.visited j = false) :
    (L.foldl (relax nodes myIdx u) st).dist j ≤ st.dist u + (edgeCost nbr).toUInt32 := by
  induction L generalizing st with
  | nil => cases hmem
  | cons a L ih =>
    have hu₁ : (relax nodes myIdx u st a).visited u = true := by rw [relax_visited]; exact hu
    rw [List.foldl_cons]
    rcases List.mem_cons.mp hmem with rfl | hmem
    · exact UInt32.le_trans (foldl_relax_relaxedAt L hu₁ j).dist_le (relax_dist_le nodes myIdx u hf hj)
    · have hdu : (relax nodes myIdx u st a).dist u = st.dist u :=
        ((relax_relaxedAt st a u).of_visited hu).1
      rw [← hdu]
      exact ih hu₁ hmem (by rw [relax_visited]; exact hj)

end Relax

/-! ## The scan for the next node -/

theorem eq_infinity_of_not_lt {d : UInt32} (h : ¬ d < wkiCostInfinity) : d = wkiCostInfinity := by
  have hd := UInt32.toNat_lt d
  rw [UInt32.lt_iff_toNat_lt] at h
  apply UInt32.toNat_inj.mp
  simp only [wkiCostInfinity, UInt32.reduceToNat] at h ⊢
  omega

/-- What the scan holds after the indices below `k`: nothing, when each unvisited one is at the
sentinel, or the first unvisited one of least distance below it. -/
def ScanAt (st : SpfState) (k : Nat) (acc : Option Nat × UInt32) : Prop :=
  (acc = (none, wkiCostInfinity) ∧ ∀ i < k, st.visited i = false → st.dist i = wkiCostInfinity) ∨
  (∃ u, acc = (some u, st.dist u) ∧ u < k ∧ st.visited u = false ∧ st.dist u < wkiCostInfinity ∧
    ∀ i < k, st.visited i = false → st.dist u ≤ st.dist i)

theorem ScanAt.step {st : SpfState} {k : Nat} {acc : Option Nat × UInt32} (h : ScanAt st k acc) :
    ScanAt st (k + 1)
      (if !st.visited k && st.dist k < acc.2 then (some k, st.dist k) else acc) := by
  have hacc : acc.2 ≤ wkiCostInfinity := by
    rcases h with ⟨rfl, -⟩ | ⟨u, rfl, -, -, hlt, -⟩
    · exact UInt32.le_refl _
    · exact UInt32.le_of_lt hlt
  by_cases hk : !st.visited k && st.dist k < acc.2
  · rw [if_pos hk]
    simp only [Bool.and_eq_true, Bool.not_eq_true', decide_eq_true_eq] at hk
    refine .inr ⟨k, rfl, by omega, hk.1, UInt32.lt_of_lt_of_le hk.2 hacc, fun i hi hvi => ?_⟩
    rcases Nat.lt_succ_iff_lt_or_eq.mp hi with hi | rfl
    · rcases h with ⟨rfl, hnone⟩ | ⟨u, rfl, -, -, -, hmin⟩
      · rw [hnone i hi hvi]; exact UInt32.le_of_lt hk.2
      · exact UInt32.le_trans (UInt32.le_of_lt hk.2) (hmin i hi hvi)
    · exact UInt32.le_refl _
  · rw [if_neg hk]
    simp only [Bool.and_eq_true, Bool.not_eq_true', decide_eq_true_eq, not_and] at hk
    rcases h with ⟨rfl, hnone⟩ | ⟨u, rfl, hu, hvu, hlt, hmin⟩
    · refine .inl ⟨rfl, fun i hi hvi => ?_⟩
      rcases Nat.lt_succ_iff_lt_or_eq.mp hi with hi | rfl
      · exact hnone i hi hvi
      · exact eq_infinity_of_not_lt (hk hvi)
    · refine .inr ⟨u, rfl, by omega, hvu, hlt, fun i hi hvi => ?_⟩
      rcases Nat.lt_succ_iff_lt_or_eq.mp hi with hi | rfl
      · exact hmin i hi hvi
      · exact UInt32.not_lt.mp (hk hvi)

theorem pickUnvisited_scan (st : SpfState) (n : Nat) :
    ScanAt st n ((List.range n).foldl
      (fun (acc : Option Nat × UInt32) i =>
        if !st.visited i && st.dist i < acc.2 then (some i, st.dist i) else acc)
      (none, wkiCostInfinity)) := by
  induction n with
  | zero => exact .inl ⟨rfl, fun i hi => absurd hi (Nat.not_lt_zero i)⟩
  | succ n ih =>
    rw [List.range_succ, List.foldl_append, List.foldl_cons, List.foldl_nil]
    exact ih.step

/-- The scan picks an unvisited index of least distance, below the sentinel. -/
theorem pickUnvisited_some {n : Nat} {st : SpfState} {u : Nat} (h : pickUnvisited n st = some u) :
    u < n ∧ st.visited u = false ∧ st.dist u ≠ wkiCostInfinity ∧
      ∀ i < n, st.visited i = false → st.dist u ≤ st.dist i := by
  unfold pickUnvisited at h
  rcases pickUnvisited_scan st n with ⟨hacc, -⟩ | ⟨u', hacc, hu, hvu, hlt, hmin⟩
  · rw [hacc] at h; cases h
  · rw [hacc] at h
    cases h
    exact ⟨hu, hvu, UInt32.ne_of_lt hlt, hmin⟩

/-- The scan picks nothing only when every unvisited index is at the sentinel. -/
theorem pickUnvisited_none {n : Nat} {st : SpfState} (h : pickUnvisited n st = none) :
    ∀ i < n, st.visited i = false → st.dist i = wkiCostInfinity := by
  unfold pickUnvisited at h
  rcases pickUnvisited_scan st n with ⟨-, hnone⟩ | ⟨u', hacc, -⟩
  · exact hnone
  · rw [hacc] at h; cases h

/-! ## Counting the visited indices -/

/-- The number of visited indices below `n`. -/
def visitedCount (n : Nat) (visited : Nat → Bool) : Nat :=
  ((Finset.range n).filter fun i => visited i = true).card

theorem visitedCount_visit {n u : Nat} {visited : Nat → Bool} (hu : u < n) (hv : visited u = false) :
    visitedCount n (Function.update visited u true) = visitedCount n visited + 1 := by
  unfold visitedCount
  have hset : ((Finset.range n).filter fun i => Function.update visited u true i = true) =
      insert u ((Finset.range n).filter fun i => visited i = true) := by
    ext i
    by_cases hiu : i = u
    · subst hiu; simp [hu]
    · simp [hiu]
  rw [hset, Finset.card_insert_of_notMem (by simp [hv])]

/-- With an unvisited index below `n`, fewer than `n` are visited. -/
theorem visitedCount_lt {n v : Nat} {visited : Nat → Bool} (hv : v < n) (hvv : visited v = false) :
    visitedCount n visited < n := by
  unfold visitedCount
  calc ((Finset.range n).filter fun i => visited i = true).card
      ≤ ((Finset.range n).erase v).card := by
        apply Finset.card_le_card
        intro i hi
        simp only [Finset.mem_filter, Finset.mem_range] at hi
        exact Finset.mem_erase.mpr ⟨fun h => by rw [h, hvv] at hi; exact absurd hi.2 (by simp),
          Finset.mem_range.mpr hi.1⟩
    _ < n := by rw [Finset.card_erase_of_mem (Finset.mem_range.mpr hv), Finset.card_range]; omega

/-! ## The invariant of the search -/

@[simp] theorem SpfState.visit_dist (st : SpfState) (u : Nat) : (st.visit u).dist = st.dist := rfl
@[simp] theorem SpfState.visit_hops (st : SpfState) (u : Nat) : (st.visit u).hops = st.hops := rfl
@[simp] theorem SpfState.visit_nextHop (st : SpfState) (u : Nat) : (st.visit u).nextHop = st.nextHop := rfl
@[simp] theorem SpfState.visit_visited (st : SpfState) (u : Nat) :
    (st.visit u).visited = Function.update st.visited u true := rfl

theorem getD_mem {nodes : List UInt16} {j : Nat} (hj : j < nodes.length) : nodes.getD j 0 ∈ nodes := by
  rw [List.getD_eq_getElem _ _ hj]; exact List.getElem_mem hj

theorem exists_getD_of_mem {nodes : List UInt16} {t : UInt16} (ht : t ∈ nodes) :
    ∃ y, y < nodes.length ∧ nodes.getD y 0 = t := by
  obtain ⟨y, hy, rfl⟩ := List.mem_iff_getElem.mp ht
  exact ⟨y, hy, List.getD_eq_getElem _ _ hy⟩

theorem cost_lt_of_mem_spfAdj {lsdb : Lsdb} {u t : UInt16} {c : ℕ} (h : (t, c) ∈ spfAdj lsdb u) :
    c < 2 ^ 16 := by
  obtain ⟨-, -, nbr, -, -, -, rfl⟩ := mem_spfAdj.mp h
  exact UInt16.toNat_lt _

/-- A distance at most 65535 per hop leaves room for one more edge below the sentinel. -/
theorem toNat_add_cost {d : UInt32} {h : UInt8} (hd : d.toNat ≤ 65535 * h.toNat) (c : UInt16) :
    (d + c.toUInt32).toNat = d.toNat + c.toNat ∧ d.toNat + c.toNat < wkiCostInfinity.toNat := by
  have hh := UInt8.toNat_lt h
  have hc := UInt16.toNat_lt c
  have hlt : d.toNat + c.toNat < 2 ^ 32 - 1 := by omega
  rw [UInt32.toNat_add, UInt16.toNat_toUInt32, Nat.mod_eq_of_lt (by omega)]
  exact ⟨rfl, by simpa [wkiCostInfinity] using hlt⟩

/-- What the search needs of its node array: distinct valid ids, at most `WKI_MAX_PEERS` of them,
the node's own at `myIdx`, and every node reachable from it among them. -/
structure SpfNodes (lsdb : Lsdb) (nodes : List UInt16) (myIdx : Nat) : Prop where
  nodup : nodes.Nodup
  ids : ∀ t ∈ nodes, IsNodeId t
  le : nodes.length ≤ wkiMaxPeers
  my_lt : myIdx < nodes.length
  closed : ∀ t, Reachable (spfAdj lsdb) (nodes.getD myIdx 0) t → t ∈ nodes

/-- Distinct ids sit at distinct indices. -/
theorem getD_inj_of_nodup {nodes : List UInt16} (hnd : nodes.Nodup) {x y : Nat} (hx : x < nodes.length)
    (hy : y < nodes.length) (h : nodes.getD x 0 = nodes.getD y 0) : x = y := by
  rw [List.getD_eq_getElem _ _ hx, List.getD_eq_getElem _ _ hy] at h
  exact hnd.getElem_inj_iff.mp h

/-- **The invariant of the search.**  Every finite distance is the weight of a walk from the node's
own id, as long as the hop count, starting at the recorded first hop, at most 65535 per hop and
with no more hops than visited indices; a visited index has its least distance, no unvisited
index is nearer, and every edge out of a visited index bounds the distance of its unvisited end. -/
structure SpfInv (lsdb : Lsdb) (nodes : List UInt16) (myIdx : Nat) (st : SpfState) : Prop where
  dist_my : st.dist myIdx = 0
  hops_my : st.hops myIdx = 0
  walk : ∀ i, st.dist i ≠ wkiCostInfinity → ∃ vs,
    IsWalk (spfAdj lsdb) (nodes.getD myIdx 0) (nodes.getD i 0) vs (st.dist i).toNat ∧
      vs.length = (st.hops i).toNat ∧ (i ≠ myIdx → vs.head? = some (st.nextHop i))
  dist_le : ∀ i, st.dist i ≠ wkiCostInfinity → (st.dist i).toNat ≤ 65535 * (st.hops i).toNat
  hops_le : ∀ i, st.dist i ≠ wkiCostInfinity →
    (st.hops i).toNat ≤ visitedCount nodes.length st.visited
  visited_lt : ∀ i, st.visited i = true → i < nodes.length
  visited_fin : ∀ i, st.visited i = true → st.dist i ≠ wkiCostInfinity
  visited_opt : ∀ i, st.visited i = true → ∀ vs w,
    IsWalk (spfAdj lsdb) (nodes.getD myIdx 0) (nodes.getD i 0) vs w → (st.dist i).toNat ≤ w
  visited_le : ∀ x y, st.visited x = true → y < nodes.length → st.visited y = false →
    (st.dist x).toNat ≤ (st.dist y).toNat
  frontier : ∀ x y c, st.visited x = true → y < nodes.length → st.visited y = false →
    (nodes.getD y 0, c) ∈ spfAdj lsdb (nodes.getD x 0) → (st.dist y).toNat ≤ (st.dist x).toNat + c

section Search

variable {lsdb : Lsdb} {nodes : List UInt16} {myIdx : Nat}

theorem init_dist_ne {myIdx i : Nat} (h : (SpfState.init myIdx).dist i ≠ wkiCostInfinity) : i = myIdx := by
  by_contra hne
  exact h (by simp [SpfState.init, hne])

theorem spfInv_init : SpfInv lsdb nodes myIdx (SpfState.init myIdx) where
  dist_my := by simp [SpfState.init]
  hops_my := rfl
  walk i hi := by
    obtain rfl := init_dist_ne hi
    exact ⟨[], by simpa [SpfState.init] using IsWalk.nil, rfl, fun h => absurd rfl h⟩
  dist_le i hi := by obtain rfl := init_dist_ne hi; simp [SpfState.init]
  hops_le _ _ := by simp [SpfState.init]
  visited_lt _ h := by simp [SpfState.init] at h
  visited_fin _ h := by simp [SpfState.init] at h
  visited_opt _ h := by simp [SpfState.init] at h
  visited_le _ _ h := by simp [SpfState.init] at h
  frontier _ _ _ h := by simp [SpfState.init] at h

variable {st : SpfState}

theorem SpfInv.dist_bound (hI : SpfInv lsdb nodes myIdx st) {i : Nat} (hi : st.dist i ≠ wkiCostInfinity) :
    (st.dist i).toNat ≤ 65535 * 255 := by
  have := hI.dist_le i hi
  have := UInt8.toNat_lt (st.hops i)
  omega

/-- **Leaving the visited indices.**  A walk from the node's own (visited) index to an id that no
visited index holds passes an unvisited index whose distance is finite and at most the walk's
weight. -/
theorem SpfInv.exit (hI : SpfInv lsdb nodes myIdx st) (hN : SpfNodes lsdb nodes myIdx)
    (hmy : st.visited myIdx = true) {t : UInt16} {vs : List UInt16} {w : ℕ}
    (hw : IsWalk (spfAdj lsdb) (nodes.getD myIdx 0) t vs w)
    (ht : ∀ x, st.visited x = true → nodes.getD x 0 ≠ t) :
    ∃ y, y < nodes.length ∧ st.visited y = false ∧ (st.dist y).toNat ≤ w ∧
      st.dist y ≠ wkiCostInfinity := by
  obtain ⟨x', y', c, vs', w', ⟨x, hx, rfl⟩, hy', hadj, hw', hle⟩ :=
    hw.exit (P := fun t => ∃ x, st.visited x = true ∧ nodes.getD x 0 = t) ⟨myIdx, hmy, rfl⟩
      (fun ⟨x, hx, hxt⟩ => ht x hx hxt)
  obtain ⟨y, hy, rfl⟩ := exists_getD_of_mem (hN.closed _ (hw'.snoc hadj).reachable)
  have hyv : st.visited y = false := by
    cases h : st.visited y
    · rfl
    · exact absurd ⟨y, h, rfl⟩ hy'
  have hfr := hI.frontier x y c hx hy hyv hadj
  have hopt := hI.visited_opt x hx vs' w' hw'
  have hbound := hI.dist_bound (hI.visited_fin x hx)
  have hc := cost_lt_of_mem_spfAdj hadj
  refine ⟨y, hy, hyv, by omega, fun hinf => ?_⟩
  rw [hinf] at hfr
  simp only [wkiCostInfinity, UInt32.reduceToNat] at hfr
  omega

/-- **The picked index has its least distance** (Dijkstra's lemma). -/
theorem SpfInv.pick_opt (hI : SpfInv lsdb nodes myIdx st) (hN : SpfNodes lsdb nodes myIdx) {u : Nat}
    (hpick : pickUnvisited nodes.length st = some u) {vs : List UInt16} {w : ℕ}
    (hw : IsWalk (spfAdj lsdb) (nodes.getD myIdx 0) (nodes.getD u 0) vs w) : (st.dist u).toNat ≤ w := by
  obtain ⟨hu, huv, -, hmin⟩ := pickUnvisited_some hpick
  cases hmy : st.visited myIdx with
  | false =>
    have h0 := UInt32.le_iff_toNat_le.mp (hmin myIdx hN.my_lt hmy)
    rw [hI.dist_my] at h0
    simp only [UInt32.toNat_zero, Nat.le_zero] at h0
    omega
  | true =>
    have hnot : ∀ x, st.visited x = true → nodes.getD x 0 ≠ nodes.getD u 0 := by
      intro x hx hxu
      rw [getD_inj_of_nodup hN.nodup (hI.visited_lt x hx) hu hxu, huv] at hx
      cases hx
    obtain ⟨y, hy, hyv, hyw, -⟩ := hI.exit hN hmy hw hnot
    have := UInt32.le_iff_toNat_le.mp (hmin y hy hyv)
    omega

/-- `L` lists the edges out of `x`: each neighbour with a valid id is an edge, at its cost. -/
def ListsEdges (lsdb : Lsdb) (x : UInt16) (L : List LsaNeighborEntry) : Prop :=
  ∀ t c, (t, c) ∈ spfAdj lsdb x ↔ ∃ nbr ∈ L, IsNodeId nbr.nodeId ∧ nbr.nodeId = t ∧ (edgeCost nbr).toNat = c

/-- What a round does: visit the picked index and relax the edges out of it. -/
theorem spfStep_eq_some {st st' : SpfState} (h : spfStep lsdb nodes myIdx st = some st') :
    ∃ u, pickUnvisited nodes.length st = some u ∧ ∃ L, ListsEdges lsdb (nodes.getD u 0) L ∧
      st' = L.foldl (relax nodes myIdx u) (st.visit u) := by
  unfold spfStep at h
  cases hp : pickUnvisited nodes.length st with
  | none => simp [hp] at h
  | some u =>
    refine ⟨u, rfl, ?_⟩
    cases hf : lsdbFind lsdb (nodes.getD u 0) with
    | none =>
      simp only [hp, hf, Option.some.injEq] at h
      refine ⟨[], fun t c => ?_, h.symm⟩
      rw [spfAdj_of_find_none hf]
      simp
    | some i =>
      simp only [hp, hf, Option.some.injEq] at h
      refine ⟨(lsdb i).listedNeighbors, fun t c => ?_, h.symm⟩
      rw [mem_spfAdj]
      constructor
      · rintro ⟨i', hi', hrest⟩
        rw [hf, Option.some.injEq] at hi'
        exact hi' ▸ hrest
      · exact fun hrest => ⟨i, hf, hrest⟩

theorem spfStep_eq_none {st : SpfState} (h : spfStep lsdb nodes myIdx st = none) :
    pickUnvisited nodes.length st = none := by
  unfold spfStep at h
  cases hp : pickUnvisited nodes.length st with
  | none => rfl
  | some u =>
    simp only [hp] at h
    split at h <;> cases h

variable {st : SpfState} {u : Nat} {L : List LsaNeighborEntry}

/-- **One round at one index**, in the graph's terms: an index keeps its labels, or it is an
unvisited end of an edge out of `u` and is lowered to `u`'s distance plus the edge's cost, with
one hop more, without overflow. -/
theorem SpfInv.round_at (hI : SpfInv lsdb nodes myIdx st) (hN : SpfNodes lsdb nodes myIdx)
    (hpick : pickUnvisited nodes.length st = some u) (hL : ListsEdges lsdb (nodes.getD u 0) L) (j : Nat) :
    let st' := L.foldl (relax nodes myIdx u) (st.visit u)
    (st'.dist j = st.dist j ∧ st'.hops j = st.hops j ∧ st'.nextHop j = st.nextHop j) ∨
    (j < nodes.length ∧ j ≠ u ∧ st.visited j = false ∧
      ∃ c, (nodes.getD j 0, c) ∈ spfAdj lsdb (nodes.getD u 0) ∧
        (st'.dist j).toNat = (st.dist u).toNat + c ∧ (st'.dist j).toNat < (st.dist j).toNat ∧
        (st'.hops j).toNat = (st.hops u).toNat + 1 ∧
        st'.nextHop j = if u = myIdx then nodes.getD j 0 else st.nextHop u) := by
  intro st'
  have hu1 : (st.visit u).visited u = true := by simp
  rcases foldl_relax_relaxedAt L hu1 j with h | ⟨hjv, hlt, nbr, hmem, hf, hd, hh, hn⟩
  · exact .inl h
  · right
    obtain ⟨hu, huv, hufin, -⟩ := pickUnvisited_some hpick
    obtain ⟨hj, hnode⟩ := (findIdx_eq_some hN.nodup).mp hf
    have hju : j ≠ u := by rintro rfl; simp at hjv
    have hjv' : st.visited j = false := by simpa [Function.update_of_ne hju] using hjv
    have hedge : (nodes.getD j 0, (edgeCost nbr).toNat) ∈ spfAdj lsdb (nodes.getD u 0) :=
      (hL _ _).mpr ⟨nbr, hmem, hnode ▸ hN.ids _ (getD_mem hj), hnode.symm, rfl⟩
    obtain ⟨hsum, -⟩ := toNat_add_cost (hI.dist_le u hufin) (edgeCost nbr)
    -- `u` and `j` both unvisited: `u` has fewer hops than the 255 a byte holds
    have hcount := visitedCount_lt hj hjv
    rw [SpfState.visit_visited, visitedCount_visit hu huv] at hcount
    have hhops : (st.hops u).toNat + 1 < 2 ^ 8 := by
      have := hI.hops_le u hufin
      have := hN.le
      unfold wkiMaxPeers at this
      omega
    simp only [SpfState.visit_dist, SpfState.visit_hops, SpfState.visit_nextHop] at hd hh hn hlt
    refine ⟨hj, hju, hjv', _, hedge, by rw [hd, hsum], UInt32.lt_iff_toNat_lt.mp hlt, ?_, ?_⟩
    · rw [hh, UInt8.toNat_add, UInt8.toNat_one, Nat.mod_eq_of_lt hhops]
    · rw [hn, hnode]

/-- The labels after a round: walks, the per-hop bound and the hop bound hold of every index. -/
theorem SpfInv.round_labels (hI : SpfInv lsdb nodes myIdx st) (hN : SpfNodes lsdb nodes myIdx)
    (hpick : pickUnvisited nodes.length st = some u) (hL : ListsEdges lsdb (nodes.getD u 0) L) (i : Nat)
    (hi : (L.foldl (relax nodes myIdx u) (st.visit u)).dist i ≠ wkiCostInfinity) :
    let st' := L.foldl (relax nodes myIdx u) (st.visit u)
    (∃ vs, IsWalk (spfAdj lsdb) (nodes.getD myIdx 0) (nodes.getD i 0) vs (st'.dist i).toNat ∧
      vs.length = (st'.hops i).toNat ∧ (i ≠ myIdx → vs.head? = some (st'.nextHop i))) ∧
    (st'.dist i).toNat ≤ 65535 * (st'.hops i).toNat ∧
    (st'.hops i).toNat ≤ visitedCount nodes.length st.visited + 1 := by
  intro st'
  obtain ⟨-, -, hufin, -⟩ := pickUnvisited_some hpick
  rcases hI.round_at hN hpick hL i with ⟨hd, hh, hn⟩ | ⟨-, -, -, c, hedge, hd, -, hh, hn⟩
  · have hi' : st.dist i ≠ wkiCostInfinity := hd ▸ hi
    obtain ⟨vs, hw, hlen, hhead⟩ := hI.walk i hi'
    refine ⟨⟨vs, ?_, ?_, ?_⟩, ?_, ?_⟩
    · rw [hd]; exact hw
    · rw [hh]; exact hlen
    · rw [hn]; exact hhead
    · rw [hd, hh]; exact hI.dist_le i hi'
    · rw [hh]; have := hI.hops_le i hi'; omega
  · obtain ⟨vs, hw, hlen, hhead⟩ := hI.walk u hufin
    have hc := cost_lt_of_mem_spfAdj hedge
    have hdu := hI.dist_le u hufin
    refine ⟨⟨vs ++ [nodes.getD i 0], by rw [hd]; exact hw.snoc hedge,
      by rw [List.length_append, hlen]; exact hh.symm, fun hne => ?_⟩,
      by rw [hd, hh]; omega, by rw [hh]; have := hI.hops_le u hufin; omega⟩
    rw [hn]
    by_cases hum : u = myIdx
    · subst hum
      rw [hI.hops_my, UInt8.toNat_zero, List.length_eq_zero_iff] at hlen
      simp [hlen]
    · rw [if_neg hum]
      have hh' := hhead hum
      cases vs with
      | nil => simp at hh'
      | cons a vs' => simpa using hh'

/-- **One round keeps the invariant**, and visits one index more. -/
theorem SpfInv.step (hI : SpfInv lsdb nodes myIdx st) (hN : SpfNodes lsdb nodes myIdx) {st' : SpfState}
    (h : spfStep lsdb nodes myIdx st = some st') :
    SpfInv lsdb nodes myIdx st' ∧
      visitedCount nodes.length st'.visited = visitedCount nodes.length st.visited + 1 := by
  obtain ⟨u, hpick, L, hL, rfl⟩ := spfStep_eq_some h
  obtain ⟨hu, huv, hufin, hmin⟩ := pickUnvisited_some hpick
  have hu1 : (st.visit u).visited u = true := by simp
  have hvis : (L.foldl (relax nodes myIdx u) (st.visit u)).visited = Function.update st.visited u true := by
    rw [foldl_relax_visited, SpfState.visit_visited]
  have hcount : visitedCount nodes.length (L.foldl (relax nodes myIdx u) (st.visit u)).visited =
      visitedCount nodes.length st.visited + 1 := by
    rw [hvis]; exact visitedCount_visit hu huv
  -- the visited indices, `u` now among them, keep their distances; no distance grows
  have hkeep : ∀ x, Function.update st.visited u true x = true →
      (L.foldl (relax nodes myIdx u) (st.visit u)).dist x = st.dist x :=
    fun x hx => ((foldl_relax_relaxedAt L hu1 x).of_visited (by simpa using hx)).1
  have hdec : ∀ y, ((L.foldl (relax nodes myIdx u) (st.visit u)).dist y).toNat ≤ (st.dist y).toNat :=
    fun y => UInt32.le_iff_toNat_le.mp (foldl_relax_relaxedAt L hu1 y).dist_le
  have hvisited : ∀ x, Function.update st.visited u true x = true → x = u ∨ st.visited x = true := by
    intro x hx
    by_cases hxu : x = u
    · exact .inl hxu
    · exact .inr (by simpa [Function.update_of_ne hxu] using hx)
  have hunvisited : ∀ y, Function.update st.visited u true y = false → y ≠ u ∧ st.visited y = false := by
    intro y hy
    have hyu : y ≠ u := by rintro rfl; simp at hy
    exact ⟨hyu, by simpa [Function.update_of_ne hyu] using hy⟩
  have hfar : ∀ y, y < nodes.length → Function.update st.visited u true y = false →
      (st.dist u).toNat ≤ ((L.foldl (relax nodes myIdx u) (st.visit u)).dist y).toNat := by
    intro y hy hyv
    rcases hI.round_at hN hpick hL y with ⟨hd, -⟩ | ⟨-, -, -, c, -, hd, -⟩
    · rw [hd]; exact UInt32.le_iff_toNat_le.mp (hmin y hy (hunvisited y hyv).2)
    · rw [hd]; omega
  refine ⟨⟨?_, ?_, fun i hi => (hI.round_labels hN hpick hL i hi).1,
    fun i hi => (hI.round_labels hN hpick hL i hi).2.1,
    fun i hi => hcount ▸ (hI.round_labels hN hpick hL i hi).2.2, ?_, ?_, ?_, ?_, ?_⟩, hcount⟩
  · rcases hI.round_at hN hpick hL myIdx with ⟨hd, -⟩ | ⟨-, -, -, -, -, -, hlt, -⟩
    · rw [hd, hI.dist_my]
    · rw [hI.dist_my] at hlt; simp at hlt
  · rcases hI.round_at hN hpick hL myIdx with ⟨-, hh, -⟩ | ⟨-, -, -, -, -, -, hlt, -⟩
    · rw [hh, hI.hops_my]
    · rw [hI.dist_my] at hlt; simp at hlt
  · intro x hx
    rw [hvis] at hx
    rcases hvisited x hx with rfl | hx'
    · exact hu
    · exact hI.visited_lt x hx'
  · intro x hx
    rw [hvis] at hx
    rw [hkeep x hx]
    rcases hvisited x hx with rfl | hx'
    · exact hufin
    · exact hI.visited_fin x hx'
  · -- visited_opt: `u` by Dijkstra's lemma
    intro x hx vs w hw
    rw [hvis] at hx
    rw [hkeep x hx]
    rcases hvisited x hx with rfl | hx'
    · exact hI.pick_opt hN hpick hw
    · exact hI.visited_opt x hx' vs w hw
  · intro x y hx hy hyv
    rw [hvis] at hx hyv
    rw [hkeep x hx]
    rcases hvisited x hx with rfl | hx'
    · exact hfar y hy hyv
    · exact (hI.visited_le x u hx' hu huv).trans (hfar y hy hyv)
  · intro x y c hx hy hyv hadj
    rw [hvis] at hx hyv
    rw [hkeep x hx]
    rcases hvisited x hx with rfl | hx'
    · obtain ⟨nbr, hmem, -, hnode, rfl⟩ := (hL _ _).mp hadj
      have hf : findIdx nodes nbr.nodeId = some y := (findIdx_eq_some hN.nodup).mpr ⟨hy, hnode.symm⟩
      have hle : (L.foldl (relax nodes myIdx x) (st.visit x)).dist y ≤
          (st.visit x).dist x + (edgeCost nbr).toUInt32 := foldl_relax_le hu1 hmem hf (by simpa using hyv)
      rw [UInt32.le_iff_toNat_le, SpfState.visit_dist, (toNat_add_cost (hI.dist_le x hufin) _).1] at hle
      exact hle
    · exact (hdec y).trans (hI.frontier x y c hx' hy (hunvisited y hyv).2 hadj)

/-- The search has stopped: every unvisited index is at the sentinel. -/
def SpfDone (n : Nat) (st : SpfState) : Prop :=
  ∀ i < n, st.visited i = false → st.dist i = wkiCostInfinity

/-- **The main loop** keeps the invariant, and with a round for each index still unvisited it
stops with the search done. -/
theorem spfLoop_inv (hN : SpfNodes lsdb nodes myIdx) (fuel : Nat) :
    ∀ st, SpfInv lsdb nodes myIdx st →
      SpfInv lsdb nodes myIdx (spfLoop lsdb nodes myIdx fuel st) ∧
      (nodes.length ≤ visitedCount nodes.length st.visited + fuel →
        SpfDone nodes.length (spfLoop lsdb nodes myIdx fuel st)) := by
  induction fuel with
  | zero =>
    intro st hI
    simp only [spfLoop]
    exact ⟨hI, fun hle i hi hiv => absurd (visitedCount_lt hi hiv) (by omega)⟩
  | succ fuel ih =>
    intro st hI
    cases h : spfStep lsdb nodes myIdx st with
    | none =>
      simp only [spfLoop, h]
      exact ⟨hI, fun _ => pickUnvisited_none (spfStep_eq_none h)⟩
    | some st' =>
      simp only [spfLoop, h]
      obtain ⟨hI', hcount⟩ := hI.step hN h
      obtain ⟨hinv, hdone⟩ := ih st' hI'
      exact ⟨hinv, fun hle => hdone (by omega)⟩

/-- The search `wki_routing_recompute` runs, `num_nodes` rounds from the initial arrays, ends done. -/
theorem spfLoop_done (hN : SpfNodes lsdb nodes myIdx) :
    SpfInv lsdb nodes myIdx (spfLoop lsdb nodes myIdx nodes.length (SpfState.init myIdx)) ∧
      SpfDone nodes.length (spfLoop lsdb nodes myIdx nodes.length (SpfState.init myIdx)) :=
  let h := spfLoop_inv hN nodes.length (SpfState.init myIdx) spfInv_init
  ⟨h.1, h.2 (by omega)⟩

/-- When the search is done, an index has a finite distance exactly when its id is reachable. -/
theorem SpfInv.reached_iff (hI : SpfInv lsdb nodes myIdx st) (hN : SpfNodes lsdb nodes myIdx)
    (hD : SpfDone nodes.length st) {i : Nat} (hi : i < nodes.length) :
    st.dist i ≠ wkiCostInfinity ↔ Reachable (spfAdj lsdb) (nodes.getD myIdx 0) (nodes.getD i 0) := by
  constructor
  · intro hfin
    obtain ⟨vs, hw, -⟩ := hI.walk i hfin
    exact hw.reachable
  · rintro ⟨vs, w, hw⟩ hinf
    have hmy : st.visited myIdx = true := by
      cases h : st.visited myIdx
      · have := hD myIdx hN.my_lt h
        rw [hI.dist_my] at this
        exact absurd this (by decide)
      · rfl
    have hnot : ∀ x, st.visited x = true → nodes.getD x 0 ≠ nodes.getD i 0 := by
      intro x hx hxi
      rw [getD_inj_of_nodup hN.nodup (hI.visited_lt x hx) hi hxi] at hx
      exact hI.visited_fin i hx hinf
    -- the walk leaves the visited indices at a finite unvisited one, which a done search lacks
    obtain ⟨y, hy, hyv, -, hyfin⟩ := hI.exit hN hmy hw hnot
    exact hyfin (hD y hy hyv)

/-- When the search is done, a finite distance is the least weight of a walk. -/
theorem SpfInv.isDist (hI : SpfInv lsdb nodes myIdx st) (hD : SpfDone nodes.length st) {i : Nat}
    (hi : i < nodes.length) (hfin : st.dist i ≠ wkiCostInfinity) :
    IsDist (spfAdj lsdb) (nodes.getD myIdx 0) (nodes.getD i 0) (st.dist i).toNat := by
  have hv : st.visited i = true := by
    cases h : st.visited i
    · exact absurd (hD i hi h) hfin
    · rfl
  obtain ⟨vs, hw, -⟩ := hI.walk i hfin
  exact IsDist.of_walk hw (hI.visited_opt i hv)

end Search

/-! ## The routing table -/

/-- The route step 3 writes for the index `i`. -/
def spfRoute (nodes : List UInt16) (st : SpfState) (i : Nat) : RoutingEntry :=
  { dstNode := nodes.getD i 0, nextHop := st.nextHop i, cost := st.dist i, hopCount := st.hops i,
    valid := true }

/-- The routes are those of the reached indices other than the node's own, in order. -/
theorem spfRoutes_eq (nodes : List UInt16) (myIdx : Nat) (st : SpfState) :
    spfRoutes nodes myIdx st =
      ((List.range nodes.length).filter fun i => i ≠ myIdx ∧ st.dist i ≠ wkiCostInfinity).map
        (spfRoute nodes st) := by
  unfold spfRoutes
  generalize List.range nodes.length = l
  induction l with
  | nil => rfl
  | cons a l ih =>
    by_cases h1 : a = myIdx
    · rw [List.filterMap_cons_none (by simp [h1]), List.filter_cons_of_neg (by simp [h1]), ih]
    · by_cases h2 : st.dist a = wkiCostInfinity
      · rw [List.filterMap_cons_none (by simp [h1, h2]), List.filter_cons_of_neg (by simp [h2]), ih]
      · rw [List.filterMap_cons_some (b := spfRoute nodes st a) (by simp [h1, h2, spfRoute]),
          List.filter_cons_of_pos (by simp [h1, h2]), List.map_cons, ih]

theorem routingTableFill_of_lt {routes : List RoutingEntry} (table : RoutingTable) {k : Fin wkiMaxPeers}
    (hk : k.val < routes.length) : routingTableFill routes table k = routes[k.val] := by
  simp [routingTableFill, List.getElem?_eq_getElem hk]

theorem routingTableFill_of_le {routes : List RoutingEntry} (table : RoutingTable) {k : Fin wkiMaxPeers}
    (hk : routes.length ≤ k.val) : routingTableFill routes table k = { table k with valid := false } := by
  simp [routingTableFill, List.getElem?_eq_none hk]

section Fill

variable {routes : List RoutingEntry} (table : RoutingTable)

/-- Only the slots the routes reach are valid. -/
theorem routingTableFill_lt_of_valid {k : Fin wkiMaxPeers}
    (hk : (routingTableFill routes table k).valid = true) : k.val < routes.length := by
  by_contra hle
  rw [routingTableFill_of_le table (by omega)] at hk
  simp at hk

theorem routingTableFill_mem_of_valid {k : Fin wkiMaxPeers}
    (hk : (routingTableFill routes table k).valid = true) : routingTableFill routes table k ∈ routes := by
  have hlt := routingTableFill_lt_of_valid table hk
  rw [routingTableFill_of_lt table hlt]
  exact List.getElem_mem hlt

/-- With no more routes than slots, every route lands in one. -/
theorem exists_routingTableFill_eq (hlen : routes.length ≤ wkiMaxPeers) {r : RoutingEntry}
    (hr : r ∈ routes) : ∃ k, routingTableFill routes table k = r := by
  obtain ⟨j, hj, rfl⟩ := List.mem_iff_getElem.mp hr
  exact ⟨⟨j, by omega⟩, routingTableFill_of_lt table hj⟩

/-- Routes to distinct destinations fill valid slots with distinct destinations. -/
theorem routingTableFill_dst_inj (hnd : (routes.map (·.dstNode)).Nodup) {k k' : Fin wkiMaxPeers}
    (hk : (routingTableFill routes table k).valid = true) (hk' : (routingTableFill routes table k').valid = true)
    (h : (routingTableFill routes table k).dstNode = (routingTableFill routes table k').dstNode) : k = k' := by
  have hlt := routingTableFill_lt_of_valid table hk
  have hlt' := routingTableFill_lt_of_valid table hk'
  rw [routingTableFill_of_lt table hlt, routingTableFill_of_lt table hlt'] at h
  have heq : routes[k.val] = routes[k'.val] :=
    List.inj_on_of_nodup_map hnd (List.getElem_mem hlt) (List.getElem_mem hlt') h
  exact Fin.ext ((hnd.of_map _).getElem_inj_iff.mp heq)

end Fill

section Table

variable {lsdb : Lsdb} {nodes : List UInt16} {myIdx : Nat} {st : SpfState}

theorem spfRoutes_length_le (nodes : List UInt16) (myIdx : Nat) (st : SpfState) :
    (spfRoutes nodes myIdx st).length ≤ nodes.length := by
  rw [spfRoutes_eq, List.length_map]
  exact (List.length_filter_le _ _).trans (List.length_range).le

theorem mem_spfRoutes {r : RoutingEntry} :
    r ∈ spfRoutes nodes myIdx st ↔
      ∃ i < nodes.length, i ≠ myIdx ∧ st.dist i ≠ wkiCostInfinity ∧ spfRoute nodes st i = r := by
  rw [spfRoutes_eq]
  simp [and_assoc]

theorem spfRoutes_dst_nodup (hnd : nodes.Nodup) : ((spfRoutes nodes myIdx st).map (·.dstNode)).Nodup := by
  rw [spfRoutes_eq, List.map_map]
  refine List.Nodup.map_on (fun x hx y hy hxy => ?_) (List.nodup_range.filter _)
  exact getD_inj_of_nodup hnd (List.mem_range.mp (List.mem_filter.mp hx).1)
    (List.mem_range.mp (List.mem_filter.mp hy).1) hxy

/-- **The table of a done search**: a valid slot for exactly the reachable ids other than the
node's own, each with its distance and a shortest walk of its hop count from its first hop, and
no destination twice. -/
theorem spfTable_spec (hN : SpfNodes lsdb nodes myIdx) (hI : SpfInv lsdb nodes myIdx st)
    (hD : SpfDone nodes.length st) (table : RoutingTable) :
    let src := nodes.getD myIdx 0
    let table' := routingTableFill (spfRoutes nodes myIdx st) table
    (∀ v, v ≠ src →
      ((∃ k, (table' k).valid = true ∧ (table' k).dstNode = v) ↔ Reachable (spfAdj lsdb) src v)) ∧
    (∀ k, (table' k).valid = true → (table' k).dstNode ≠ src ∧
      IsDist (spfAdj lsdb) src (table' k).dstNode (table' k).cost.toNat ∧
      ∃ vs, IsWalk (spfAdj lsdb) src (table' k).dstNode vs (table' k).cost.toNat ∧
        vs.length = (table' k).hopCount.toNat ∧ vs.head? = some (table' k).nextHop) ∧
    (∀ k k', (table' k).valid = true → (table' k').valid = true →
      (table' k).dstNode = (table' k').dstNode → k = k') := by
  intro src table'
  have hroute : ∀ k, (table' k).valid = true → ∃ i < nodes.length, i ≠ myIdx ∧
      st.dist i ≠ wkiCostInfinity ∧ table' k = spfRoute nodes st i := by
    intro k hk
    obtain ⟨i, hi, him, hfin, heq⟩ := mem_spfRoutes.mp (routingTableFill_mem_of_valid table hk)
    exact ⟨i, hi, him, hfin, heq.symm⟩
  refine ⟨fun v hv => ⟨?_, ?_⟩, fun k hk => ?_,
    fun k k' hk hk' h => routingTableFill_dst_inj table (spfRoutes_dst_nodup hN.nodup) hk hk' h⟩
  · rintro ⟨k, hk, rfl⟩
    obtain ⟨i, hi, -, hfin, heq⟩ := hroute k hk
    rw [heq]
    exact (hI.reached_iff hN hD hi).mp hfin
  · intro hreach
    obtain ⟨i, hi, rfl⟩ := exists_getD_of_mem (hN.closed _ hreach)
    have him : i ≠ myIdx := by rintro rfl; exact hv rfl
    have hfin := (hI.reached_iff hN hD hi).mpr hreach
    obtain ⟨k, hk⟩ := exists_routingTableFill_eq table ((spfRoutes_length_le nodes myIdx st).trans hN.le)
      (mem_spfRoutes.mpr ⟨i, hi, him, hfin, rfl⟩)
    have hk' : table' k = spfRoute nodes st i := hk
    exact ⟨k, by rw [hk']; rfl, by rw [hk']; rfl⟩
  · obtain ⟨i, hi, him, hfin, heq⟩ := hroute k hk
    rw [heq]
    obtain ⟨vs, hw, hlen, hhead⟩ := hI.walk i hfin
    exact ⟨fun h => him (getD_inj_of_nodup hN.nodup hi hN.my_lt h), hI.isDist hD hi hfin, vs, hw, hlen,
      hhead him⟩

end Table

/-! ## `wki_routing_recompute` -/

/-- With a valid id of its own the node finds itself among the collected nodes, which then meet
what the search needs once the database mentions at most `WKI_MAX_PEERS` ids. -/
theorem collectNodes_spfNodes {myNodeId : UInt16} {lsdb : Lsdb} (hmy : IsNodeId myNodeId)
    (hcard : (lsdbIds lsdb).card ≤ wkiMaxPeers) :
    ∃ myIdx, findIdx (collectNodes myNodeId lsdb) myNodeId = some myIdx ∧
      (collectNodes myNodeId lsdb).getD myIdx 0 = myNodeId ∧ SpfNodes lsdb (collectNodes myNodeId lsdb) myIdx := by
  have hc := collectNodes_collected myNodeId lsdb
  obtain ⟨myIdx, hlt, hget⟩ := exists_getD_of_mem (mem_collectNodes_self hmy lsdb)
  refine ⟨myIdx, (findIdx_eq_some hc.nodup).mpr ⟨hlt, hget⟩, hget,
    ⟨hc.nodup, fun t ht => (hc.sub t ht).2, hc.le, hlt, fun t ht => ?_⟩⟩
  rw [hget] at ht
  exact reachable_mem_collectNodes hmy hcard ht

/-- The routing table `wki_routing_recompute` leaves, on a database that mentions at most
`WKI_MAX_PEERS` node ids, for a node with a valid id (as `wki_init` and the id-collision
handler assign): a valid entry for exactly the nodes reachable from this one, each with the
shortest distance, the hop count of a shortest walk and that walk's first hop, a direct
neighbour; no destination twice. -/
theorem wki_routing_spf (myNodeId : UInt16) (hmy : IsNodeId myNodeId) (lsdb : Lsdb)
    (hcard : (lsdbIds lsdb).card ≤ wkiMaxPeers) (table : RoutingTable) :
    let table' := wkiRoutingRecompute myNodeId lsdb table
    (∀ v, v ≠ myNodeId →
      ((∃ k, (table' k).valid = true ∧ (table' k).dstNode = v) ↔ Reachable (spfAdj lsdb) myNodeId v)) ∧
    (∀ k, (table' k).valid = true → (table' k).dstNode ≠ myNodeId ∧
      IsDist (spfAdj lsdb) myNodeId (table' k).dstNode (table' k).cost.toNat ∧
      ∃ vs, IsWalk (spfAdj lsdb) myNodeId (table' k).dstNode vs (table' k).cost.toNat ∧
        vs.length = (table' k).hopCount.toNat ∧ vs.head? = some (table' k).nextHop ∧
        ∃ c, ((table' k).nextHop, c) ∈ spfAdj lsdb myNodeId) ∧
    (∀ k k', (table' k).valid = true → (table' k').valid = true →
      (table' k).dstNode = (table' k').dstNode → k = k') := by
  intro table'
  obtain ⟨myIdx, hfind, hsrc, hN⟩ := collectNodes_spfNodes hmy hcard
  have htable : table' = routingTableFill (spfRoutes (collectNodes myNodeId lsdb) myIdx
      (spfLoop lsdb (collectNodes myNodeId lsdb) myIdx (collectNodes myNodeId lsdb).length
        (SpfState.init myIdx))) table := by
    simp only [table', wkiRoutingRecompute, hfind]
  obtain ⟨hI, hD⟩ := spfLoop_done hN
  obtain ⟨h1, h2, h3⟩ := spfTable_spec hN hI hD table
  rw [hsrc] at h1 h2
  rw [htable]
  refine ⟨h1, fun k hk => ?_, h3⟩
  obtain ⟨hne, hdist, vs, hw, hlen, hhead⟩ := h2 k hk
  exact ⟨hne, hdist, vs, hw, hlen, hhead, hw.head_adj hhead⟩

/-- A node with an entry listing node 2 at cost 5 gets a route to node 2. -/
theorem wki_routing_spf_neighbor :
    let lsdb : Lsdb := fun i => if i.val = 0 then
      { originNode := 1, numNeighbors := 1, neighbors := fun _ => ⟨2, 5, 1500⟩, valid := true } else {}
    IsNodeId 1 ∧ (lsdbIds lsdb).card ≤ wkiMaxPeers ∧
      ∃ k, (wkiRoutingRecompute 1 lsdb (fun _ => { valid := false }) k).valid = true ∧
        (wkiRoutingRecompute 1 lsdb (fun _ => { valid := false }) k).dstNode = 2 := by
  intro lsdb
  have hcard : (lsdbIds lsdb).card ≤ wkiMaxPeers := by decide
  have hedge : ((2 : UInt16), 5) ∈ spfAdj lsdb 1 := by decide
  have hreach : Reachable (spfAdj lsdb) 1 2 := ⟨[2], 5, by simpa using IsWalk.snoc IsWalk.nil hedge⟩
  exact ⟨by decide, hcard, ((wki_routing_spf 1 (by decide) lsdb hcard _).1 2 (by decide)).mpr hreach⟩

/-! ## The graph as listed -/

/-- The graph as the entries list it: an edge to every listed id, `WKI_NODE_INVALID` and
`WKI_NODE_BROADCAST` included. -/
def lsdbAdj (lsdb : Lsdb) (u : UInt16) : List (UInt16 × ℕ) :=
  match lsdbFind lsdb u with
  | none => []
  | some i => (lsdb i).listedNeighbors.map fun nbr => (nbr.nodeId, (edgeCost nbr).toNat)

/-- A node with a valid id only ever writes routes to valid ids. -/
theorem wkiRoutingRecompute_dst_isNodeId {myNodeId : UInt16} (hmy : IsNodeId myNodeId) (lsdb : Lsdb)
    (table : RoutingTable) {k : Fin wkiMaxPeers} (hk : (wkiRoutingRecompute myNodeId lsdb table k).valid = true) :
    IsNodeId (wkiRoutingRecompute myNodeId lsdb table k).dstNode := by
  have hc := collectNodes_collected myNodeId lsdb
  obtain ⟨myIdx, hlt, hget⟩ := exists_getD_of_mem (mem_collectNodes_self hmy lsdb)
  have hfind := (findIdx_eq_some hc.nodup).mpr ⟨hlt, hget⟩
  simp only [wkiRoutingRecompute, hfind] at hk ⊢
  obtain ⟨i, hi, -, -, heq⟩ := mem_spfRoutes.mp (routingTableFill_mem_of_valid _ hk)
  rw [← heq]
  exact (hc.sub _ (getD_mem hi)).2

/-- Node 1's entry lists `WKI_NODE_BROADCAST`: the id is reachable along the listed edges, yet
no route to it is written. -/
theorem wki_routing_broadcast_unrouted :
    let lsdb : Lsdb := fun i => if i.val = 0 then
      { originNode := 1, numNeighbors := 1, neighbors := fun _ => ⟨wkiNodeBroadcast, 1, 1500⟩,
        valid := true } else {}
    Reachable (lsdbAdj lsdb) 1 wkiNodeBroadcast ∧
      ∀ table k, ¬ ((wkiRoutingRecompute 1 lsdb table k).valid = true ∧
        (wkiRoutingRecompute 1 lsdb table k).dstNode = wkiNodeBroadcast) := by
  intro lsdb
  have hedge : (wkiNodeBroadcast, 1) ∈ lsdbAdj lsdb 1 := by decide
  refine ⟨⟨[wkiNodeBroadcast], 1, by simpa using IsWalk.snoc IsWalk.nil hedge⟩, fun table k ⟨hk, hdst⟩ => ?_⟩
  exact (wkiRoutingRecompute_dst_isNodeId (by decide) lsdb table hk).2 hdst

end Wos.Wki
