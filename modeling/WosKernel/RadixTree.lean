import WosKernel.Lib.DefaultMap
import WosKernel.Lib.RadixDigits
import WosKernel.Lib.BitFields

/-! # The radix tree of `util/radix_tree.hpp` is a finite map

`RadixTree<T>` keeps a map from 64-bit keys to `T`, with `T{}` for "absent", in a
tree of 64-way nodes.  A tree of depth `d` has its leaves at level 1 and its root at
level `d`; on the path of a key the child below a node of level `l + 1` is picked by
the key's 6-bit slot `l`.  `insert` grows the depth until the key fits, re-rooting
the old tree under child 0, allocates the missing nodes of the path and writes the
value; `remove` clears the slot and frees, bottom up, the nodes it leaves empty,
never the root; `for_each` walks the tree in slot order; `clone_from` inserts
another tree's entries into an empty tree of that tree's depth.

The model's nodes are the code's: `Node.null` is a null `Node*`, and a node's union
holds a leaf's values or an interior node's children.  What a node of level `l`
stores at an offset `j` is `Node.get l n j`: the slots of `j` from the top pick the
path, and a null node stores `T{}` everywhere.  `Represents t m` says that the tree
`t` is well formed with every `populated` count exact (`NodeWF`) and stores the map
`m`.  Every successful operation keeps it (`Represents.insert`, `Represents.remove`,
`Represents.cloneFrom`), so every tree the operations build (`Reaches`) looks up,
counts and iterates as its map does (`radix_tree_refines_map`).

Allocation is not modelled to fail: an operation whose allocation fails returns
false, and the results here are about operations that succeed.  Every `insert`
below `UINT64_MAX` into such a tree succeeds (`Represents.insert_isSome_iff`), so
every `clone_from` of one does (`Represents.cloneFrom_isSome`); `insert` of
`UINT64_MAX` never does: from depth 11 on the capacity stays `UINT64_MAX`, and the
growth loop ends only when an allocation fails (`insert_uint64Max`), the depth growing
past `MAX_DEPTH` on the way (`insert_uint64Max_diverges`).
`find_first_unset` is modelled in `RadixFind`; the move operations are not modelled.
-/

namespace Wos.Radix

open DefaultMap RadixDigits

def bitsPerLevel : Nat := 6
def fanout : Nat := 64
def maxDepth : Nat := 11
def levelMask : UInt64 := 63
/-- `UINT64_MAX`. -/
def uint64Max : UInt64 := 0xFFFFFFFFFFFFFFFF

/-- A `Node*`.  A node holds either 64 values (a leaf) or 64 child pointers (an
interior node), with the count `populated` of those that are set; the code tells
the two apart by the level the node sits at. -/
inductive Node (T : Type) where
  | null
  | leaf (values : Fin 64 → T) (populated : Nat)
  | interior (children : Fin 64 → Node T) (populated : Nat)

namespace Node
variable {T : Type} [Inhabited T]

def isNull : Node T → Bool
  | .null => true
  | _ => false

def populated : Node T → Nat
  | .null => 0
  | .leaf _ p => p
  | .interior _ p => p

/-- `child_at(node, idx)`. -/
def childAt : Node T → Fin 64 → Node T
  | .interior cs _, i => cs i
  | _, _ => .null

/-- `value_at(node, idx)`. -/
def valueAt : Node T → Fin 64 → T
  | .leaf vs _, i => vs i
  | _, _ => default

/-- `child_at(node, idx) = c`, with `populated` set to `p`. -/
def setChild : Node T → Fin 64 → Node T → Nat → Node T
  | .interior cs _, i, c, p => .interior (Function.update cs i c) p
  | n, _, _, _ => n

/-- `value_at(node, idx) = v`, with `populated` set to `p`. -/
def setValue : Node T → Fin 64 → T → Nat → Node T
  | .leaf vs _, i, v, p => .leaf (Function.update vs i v) p
  | n, _, _, _ => n

end Node

/-- `slot_index(key, level)`: the key's 6-bit slot at `level`. -/
def slotIndex (key : UInt64) (level : Nat) : Fin 64 :=
  ⟨((key >>> UInt64.ofNat ((level - 1) * bitsPerLevel)) &&& levelMask).toNat, by
    rw [UInt64.toNat_and]
    exact Nat.lt_of_le_of_lt Nat.and_le_right (by decide)⟩

/-- The loop of `capacity_at_depth`: `cap *= FANOUT`, `depth` times. -/
def capLoop : Nat → UInt64
  | 0 => 1
  | n + 1 => capLoop n * UInt64.ofNat fanout

/-- `capacity_at_depth`: the keys a tree of depth `depth` can hold, saturated at
`UINT64_MAX` from depth 11 on. -/
def capacityAtDepth (depth : Nat) : UInt64 :=
  if depth = 0 then 0 else if 11 ≤ depth then uint64Max else capLoop depth

/-- `RadixTree<T>`, as `RadixTree()` leaves it by default. -/
structure RadixTree (T : Type) where
  root : Node T := .null
  size : Nat := 0
  depth : Nat := 1

namespace RadixTree
variable {T : Type} [Inhabited T] [DecidableEq T]

/-- `alloc_leaf_node` for level 1, `alloc_interior_node` above. -/
def allocNode (level : Nat) : Node T :=
  if level = 1 then .leaf (fun _ => default) 0 else .interior (fun _ => .null) 0

/-- `grow_depth`: a new interior root, with the old root, if any, as child 0. -/
def growDepth (t : RadixTree T) : RadixTree T :=
  { t with
    root := if t.root.isNull then .interior (fun _ => .null) 0
      else .interior (Function.update (fun _ => .null) 0 t.root) 1
    depth := t.depth + 1 }

/-- The loop `while (key >= capacity_at_depth(m_depth)) grow_depth()`, with `n` the
growths left before depth 11.  From there on the capacity stays `UINT64_MAX`, so a
key it does not cover keeps the loop growing until an allocation fails, and
`insert` returns false. -/
def growLoop (key : UInt64) : Nat → RadixTree T → Option (RadixTree T)
  | n, t =>
    if key < capacityAtDepth t.depth then some t
    else match n with
      | 0 => none
      | n + 1 => growLoop key n t.growDepth

/-- The leaf step of `insert`: the value written, `populated` moved when the slot
changes between `T{}` and set, and the value the slot held. -/
def storeValue (n : Node T) (i : Fin 64) (value : T) : Node T × T :=
  let old := n.valueAt i
  let wasEmpty := old == default
  (n.setValue i value
    (if wasEmpty && value != default then n.populated + 1
      else if !wasEmpty && value == default then n.populated - 1 else n.populated), old)

/-- The walk of `insert` from a node at `level` to its leaf, allocating the nodes
missing on the path, with the value the leaf slot held. -/
def insertNode (key : UInt64) (value : T) : Nat → Node T → Node T × T
  | level + 2, n =>
    let i := slotIndex key (level + 2)
    if (n.childAt i).isNull then
      let r := insertNode key value (level + 1) (allocNode (level + 1))
      (n.setChild i r.1 (n.populated + 1), r.2)
    else
      let r := insertNode key value (level + 1) (n.childAt i)
      (n.setChild i r.1 n.populated, r.2)
  | _, n => storeValue n (slotIndex key 1) value

/-- `insert`: `none` is a return of false. -/
def insert (t : RadixTree T) (key : UInt64) (value : T) : Option (RadixTree T) := do
  let t ← growLoop key (maxDepth - t.depth) t
  let root := if t.root.isNull then allocNode t.depth else t.root
  let r := insertNode key value t.depth root
  let wasEmpty := r.2 == default
  pure { t with
    root := r.1
    size := if wasEmpty && value != default then t.size + 1
      else if !wasEmpty && value == default then t.size - 1 else t.size }

/-- The walk of `remove` from a node at `level`, and its pruning on the way back up.
`none` when the key is not set: nothing changes.  Otherwise the node after the
removal, `null` when it was freed because its `populated` reached 0 and it is not
the root, with the value removed. -/
def removeNode (key : UInt64) (isRoot : Bool) : Nat → Node T → Option (Node T × T)
  | level + 2, n =>
    let i := slotIndex key (level + 2)
    if (n.childAt i).isNull then none
    else (removeNode key false (level + 1) (n.childAt i)).map fun r =>
      if r.1.isNull then
        -- the child was freed: clear its slot, and free this node too once it is empty
        if n.populated - 1 = 0 && !isRoot then (.null, r.2)
        else (n.setChild i .null (n.populated - 1), r.2)
      else (n.setChild i r.1 n.populated, r.2)
  | _, n =>
    let i := slotIndex key 1
    let old := n.valueAt i
    if old = default then none
    else if n.populated - 1 = 0 && !isRoot then some (.null, old)
    else some (n.setValue i default (n.populated - 1), old)

/-- `remove`: the tree after it, and the value removed (`T{}` if none). -/
def remove (t : RadixTree T) (key : UInt64) : RadixTree T × T :=
  if t.root.isNull || capacityAtDepth t.depth ≤ key then (t, default)
  else match removeNode key true t.depth t.root with
    | none => (t, default)
    | some r => ({ t with root := r.1, size := t.size - 1 }, r.2)

/-- The walk of `lookup` from a node at `level`. -/
def lookupNode (key : UInt64) : Nat → Node T → T
  | level + 2, n =>
    if (n.childAt (slotIndex key (level + 2))).isNull then default
    else lookupNode key (level + 1) (n.childAt (slotIndex key (level + 2)))
  | _, n => n.valueAt (slotIndex key 1)

def lookup (t : RadixTree T) (key : UInt64) : T :=
  if t.root.isNull || capacityAtDepth t.depth ≤ key then default
  else lookupNode key t.depth t.root

/-- `CHILD_PREFIX`: the base of the keys below child `i` of a node at `level + 2`. -/
def childBase (base : UInt64) (level : Nat) (i : Fin 64) : UInt64 :=
  base ||| UInt64.ofNat i <<< UInt64.ofNat ((level + 1) * bitsPerLevel)

/-- `iterate_node`: the calls `fn(key, value)` it makes, in order. -/
def iterateNode (base : UInt64) : Nat → Node T → List (UInt64 × T)
  | 0, _ => []
  | 1, n => (List.finRange 64).filterMap fun i =>
    if n.valueAt i != default then some (base ||| UInt64.ofNat i, n.valueAt i) else none
  | level + 2, n => (List.finRange 64).flatMap fun i =>
    if (n.childAt i).isNull then []
    else iterateNode (childBase base level i) (level + 1) (n.childAt i)

/-- `for_each`: the calls of the callback, in order. -/
def forEach (t : RadixTree T) : List (UInt64 × T) :=
  if t.root.isNull then [] else iterateNode 0 t.depth t.root

/-- `clone_from(other)`: the tree's own nodes are destroyed, and `other`'s entries
inserted into an empty tree of `other`'s depth; `none` is a return of false. -/
def cloneFrom (other : RadixTree T) : Option (RadixTree T) :=
  let t : RadixTree T := { root := .null, size := 0, depth := other.depth }
  if other.root.isNull then some t
  else other.forEach.foldlM (fun acc kv => if kv.2 != default then acc.insert kv.1 kv.2 else some acc) t

end RadixTree

/-! ## Slots and capacities -/

/-- Slot `l` of an offset, as an index. -/
def digitFin (j l : Nat) : Fin 64 := ⟨digit 64 j l, digit_lt (by decide) j l⟩

/-- `slot_index` at level `l + 1` reads digit `l` of the key in base 64, at every
level a tree of depth at most 11 has. -/
theorem slotIndex_succ (key : UInt64) {level : Nat} (h : level + 1 ≤ maxDepth) :
    slotIndex key (level + 1) = digitFin key.toNat level := by
  have hs : level * bitsPerLevel < 64 := by
    unfold bitsPerLevel
    unfold maxDepth at h
    omega
  apply Fin.ext
  show ((key >>> UInt64.ofNat ((level + 1 - 1) * bitsPerLevel)) &&& levelMask).toNat =
    key.toNat / 64 ^ level % 64
  rw [Nat.add_sub_cancel, UInt64.toNat_and, UInt64.toNat_shiftRight, UInt64.toNat_ofNat_of_lt' (by
      unfold UInt64.size; omega), Nat.mod_eq_of_lt hs, show levelMask.toNat = 2 ^ 6 - 1 from rfl,
    Nat.and_two_pow_sub_one_eq_mod, Nat.shiftRight_eq_div_pow, bitsPerLevel, Nat.mul_comm,
    Nat.pow_mul]

theorem capLoop_toNat {n : Nat} (h : n ≤ 10) : (capLoop n).toNat = 64 ^ n := by
  induction n with
  | zero => rfl
  | succ n ih =>
    have hlt : 64 ^ (n + 1) < 2 ^ 64 :=
      calc 64 ^ (n + 1) ≤ 64 ^ 10 := Nat.pow_le_pow_right (by decide) h
        _ < 2 ^ 64 := by decide
    rw [capLoop, UInt64.toNat_mul, ih (by omega), show (UInt64.ofNat fanout).toNat = 64 from rfl,
      ← Nat.pow_succ, Nat.mod_eq_of_lt hlt]

theorem capacity_toNat {d : Nat} (h₁ : 1 ≤ d) (h₂ : d ≤ 10) : (capacityAtDepth d).toNat = 64 ^ d := by
  rw [capacityAtDepth, if_neg (by omega), if_neg (by omega), capLoop_toNat h₂]

theorem capacity_eleven : (capacityAtDepth 11).toNat = 2 ^ 64 - 1 := rfl

/-- The capacity of a depth counts no more keys than its offsets. -/
theorem capacity_le_pow {d : Nat} (h₁ : 1 ≤ d) (h₂ : d ≤ maxDepth) :
    (capacityAtDepth d).toNat ≤ 64 ^ d := by
  unfold maxDepth at h₂
  rcases Nat.lt_or_ge d 11 with hd | hd
  · rw [capacity_toNat h₁ (by omega)]
  · rw [show d = 11 by omega, capacity_eleven]
    decide

/-- One more level covers every offset of the level below. -/
theorem pow_le_capacity_succ {d : Nat} (h₁ : 1 ≤ d) (h₂ : d ≤ 10) :
    64 ^ d ≤ (capacityAtDepth (d + 1)).toNat := by
  rcases Nat.lt_or_ge d 10 with hd | hd
  · rw [capacity_toNat (by omega) (by omega)]
    exact Nat.pow_le_pow_right (by decide) (by omega)
  · rw [show d = 10 by omega, capacity_eleven]
    decide

theorem capacity_le_uint64Max (d : Nat) : capacityAtDepth d ≤ uint64Max :=
  UInt64.le_iff_toNat_le.mpr (Nat.le_of_lt_succ (UInt64.toNat_lt _))

/-- A key below the capacity of its tree's depth is one of its root's offsets. -/
theorem toNat_lt_pow_of_lt_capacity {d : Nat} {k : UInt64} (h₁ : 1 ≤ d) (h₂ : d ≤ maxDepth)
    (hk : k < capacityAtDepth d) : k.toNat < 64 ^ d :=
  Nat.lt_of_lt_of_le (UInt64.lt_iff_toNat_lt.mp hk) (capacity_le_pow h₁ h₂)

/-! ## What a node stores -/

namespace Node
variable {T : Type} [Inhabited T]

/-- What a node at `level` stores at offset `j`: the slots of `j` from the top pick
the path. -/
def get : Nat → Node T → Nat → T
  | level + 2, n, j => get (level + 1) (n.childAt (digitFin j (level + 1))) j
  | _, n, j => n.valueAt (digitFin j 0)

@[simp] theorem get_null : ∀ (level j : Nat), (Node.null : Node T).get level j = default
  | 0, _ | 1, _ => rfl
  | level + 2, j => get_null (level + 1) j

@[simp] theorem get_leaf (vs : Fin 64 → T) (p j : Nat) :
    (Node.leaf vs p).get 1 j = vs (digitFin j 0) := rfl

@[simp] theorem get_interior (cs : Fin 64 → Node T) (p level j : Nat) :
    (Node.interior cs p).get (level + 2) j = (cs (digitFin j (level + 1))).get (level + 1) j := rfl

omit [Inhabited T] in
theorem isNull_iff {n : Node T} : n.isNull = true ↔ n = .null := by
  cases n <;> simp [isNull]

/-- **A node at `level` sees an offset only modulo `64^level`.** -/
theorem get_congr {j k : Nat} : ∀ {level : Nat} (n : Node T), 1 ≤ level →
    j % 64 ^ level = k % 64 ^ level → n.get level j = n.get level k
  | 0, _, h, _ => absurd h (by decide)
  | 1, n, _, h => by
    have hd : digitFin j 0 = digitFin k 0 := Fin.ext (by simpa [digitFin, digit] using h)
    show n.valueAt (digitFin j 0) = n.valueAt (digitFin k 0)
    rw [hd]
  | level + 2, n, _, h => by
    obtain ⟨hd, hm⟩ := (mod_pow_succ_eq_iff (by decide)).mp h
    have hi : digitFin j (level + 1) = digitFin k (level + 1) := Fin.ext hd
    show get (level + 1) (n.childAt (digitFin j (level + 1))) j =
      get (level + 1) (n.childAt (digitFin k (level + 1))) k
    rw [hi]
    exact get_congr _ (by omega) hm

end Node

/-! ## Well-formed nodes -/

section WellFormed
variable {T : Type} [Inhabited T] [DecidableEq T]

/-- The count a leaf keeps: its values other than `T{}`. -/
def leafCount (vs : Fin 64 → T) : Nat := (support default vs).card

/-- The count an interior node keeps: its non-null children. -/
def childCount (cs : Fin 64 → Node T) : Nat := (support true fun i => (cs i).isNull).card

/-- A node at `level` is null, a leaf at level 1, or an interior node above it whose
children are well formed one level down; and its `populated` is its count. -/
def NodeWF : Nat → Node T → Prop
  | _, .null => True
  | 1, .leaf vs p => p = leafCount vs
  | level + 2, .interior cs p => p = childCount cs ∧ ∀ i, NodeWF (level + 1) (cs i)
  | _, _ => False

/-- `n'` stores what `n` stores, but `v` at the offsets that agree with `key` below
`64^level`. -/
def StoresUpdate (level : Nat) (n n' : Node T) (key : Nat) (v : T) : Prop :=
  ∀ j, n'.get level j = if j % 64 ^ level = key % 64 ^ level then v else n.get level j

omit [DecidableEq T] in
theorem StoresUpdate.congr {level key : Nat} {v : T} {n₁ n₂ n' : Node T}
    (h : StoresUpdate level n₁ n' key v) (heq : ∀ j, n₁.get level j = n₂.get level j) :
    StoresUpdate level n₂ n' key v := fun j => by rw [h j, heq j]

omit [DecidableEq T] in
theorem StoresUpdate.congr_right {level key : Nat} {v : T} {n n' n'' : Node T}
    (h : StoresUpdate level n n'' key v) (heq : ∀ j, n'.get level j = n''.get level j) :
    StoresUpdate level n n' key v := fun j => by rw [heq j, h j]

omit [DecidableEq T] in
/-- Writing the slot of `key` in a leaf. -/
theorem StoresUpdate.leaf (vs : Fin 64 → T) (p p' key : Nat) (v : T) :
    StoresUpdate 1 (.leaf vs p) (.leaf (Function.update vs (digitFin key 0) v) p') key v := by
  intro j
  have hiff : digitFin j 0 = digitFin key 0 ↔ j % 64 ^ 1 = key % 64 ^ 1 := by
    rw [Fin.ext_iff]
    simp [digitFin, digit]
  rw [Node.get_leaf, Node.get_leaf, Function.update_apply]
  exact if_congr hiff rfl rfl

omit [DecidableEq T] in
/-- Replacing the child on the path of `key` by one that stores the update. -/
theorem StoresUpdate.interior {cs : Fin 64 → Node T} {c' : Node T} {level key : Nat} {v : T}
    (hc : StoresUpdate (level + 1) (cs (digitFin key (level + 1))) c' key v) (p p' : Nat) :
    StoresUpdate (level + 2) (.interior cs p)
      (.interior (Function.update cs (digitFin key (level + 1)) c') p') key v := by
  intro j
  rw [Node.get_interior, Node.get_interior, Function.update_apply]
  by_cases hd : digitFin j (level + 1) = digitFin key (level + 1)
  · have hiff : j % 64 ^ (level + 2) = key % 64 ^ (level + 2) ↔
        j % 64 ^ (level + 1) = key % 64 ^ (level + 1) := by
      rw [mod_pow_succ_eq_iff (by decide)]
      exact ⟨And.right, fun h => ⟨Fin.ext_iff.mp hd, h⟩⟩
    rw [if_pos hd, hc j, hd]
    exact if_congr hiff.symm rfl rfl
  · have hne : j % 64 ^ (level + 2) ≠ key % 64 ^ (level + 2) := fun h =>
      hd (Fin.ext ((mod_pow_succ_eq_iff (by decide)).mp h).1)
    rw [if_neg hd, if_neg hne]

theorem nodeWF_null (level : Nat) : NodeWF level (.null : Node T) := by
  cases level with
  | zero => trivial
  | succ l => cases l <;> trivial

/-- Setting one value of a well-formed leaf keeps it well formed when the count
moves with the change at the slot. -/
theorem NodeWF.leaf_update {vs : Fin 64 → T} {p p' : Nat} (h : NodeWF 1 (.leaf vs p)) (i : Fin 64)
    (v : T) (hp : p' + (if vs i ≠ default then 1 else 0) = p + (if v ≠ default then 1 else 0)) :
    NodeWF 1 (.leaf (Function.update vs i v) p') := by
  have hc := card_support_update (d := default) vs i v
  have h' : p = leafCount vs := h
  show p' = leafCount (Function.update vs i v)
  unfold leafCount at h' ⊢
  omega

/-- Setting one child of a well-formed interior node keeps it well formed when the
new child is, and the count moves with the change at the slot. -/
theorem NodeWF.interior_update {cs : Fin 64 → Node T} {c' : Node T} {level p p' : Nat}
    (h : NodeWF (level + 2) (.interior cs p)) (i : Fin 64) (hc : NodeWF (level + 1) c')
    (hp : p' + (if (cs i).isNull then 0 else 1) = p + (if c'.isNull then 0 else 1)) :
    NodeWF (level + 2) (.interior (Function.update cs i c') p') := by
  obtain ⟨hcount, hkids⟩ := h
  have hcomp : (fun k => (Function.update cs i c' k).isNull) =
      Function.update (fun k => (cs k).isNull) i c'.isNull := by
    funext k
    by_cases hk : k = i
    · subst hk; simp
    · simp [Function.update_of_ne hk]
  have hcard := card_support_update (d := true) (fun k => (cs k).isNull) i c'.isNull
  refine ⟨?_, fun k => ?_⟩
  · have e₁ : (if (cs i).isNull then 0 else 1) = if (cs i).isNull ≠ true then 1 else 0 := by
      cases (cs i).isNull <;> rfl
    have e₂ : (if c'.isNull then 0 else 1) = if c'.isNull ≠ true then 1 else 0 := by
      cases c'.isNull <;> rfl
    unfold childCount at hcount ⊢
    rw [hcomp]
    omega
  · by_cases hk : k = i
    · subst hk; rw [Function.update_self]; exact hc
    · rw [Function.update_of_ne hk]; exact hkids k

/-- A leaf whose count is zero stores nothing. -/
theorem get_leaf_of_leafCount_eq_zero {vs : Fin 64 → T} (h : leafCount vs = 0) (p j : Nat) :
    (Node.leaf vs p).get 1 j = default :=
  support_eq_empty_iff.mp (Finset.card_eq_zero.mp h) _

omit [DecidableEq T] in
/-- An interior node whose count is zero stores nothing. -/
theorem get_interior_of_childCount_eq_zero {cs : Fin 64 → Node T} (h : childCount cs = 0)
    (level p j : Nat) : (Node.interior cs p).get (level + 2) j = default := by
  have hnull := support_eq_empty_iff.mp (Finset.card_eq_zero.mp h) (digitFin j (level + 1))
  rw [Node.get_interior, Node.isNull_iff.mp hnull, Node.get_null]

/-- A set slot is counted, so the count of a well-formed leaf with one is positive. -/
theorem leafCount_pos {vs : Fin 64 → T} {i : Fin 64} (h : vs i ≠ default) : 0 < leafCount vs :=
  Finset.card_pos.mpr ⟨i, mem_support.mpr h⟩

omit [Inhabited T] [DecidableEq T] in
theorem childCount_pos {cs : Fin 64 → Node T} {i : Fin 64} (h : (cs i).isNull = false) :
    0 < childCount cs :=
  Finset.card_pos.mpr ⟨i, mem_support.mpr (by simp [h])⟩

end WellFormed


/-! ## The walks of `insert`, `remove` and `lookup` -/

namespace RadixTree
variable {T : Type} [Inhabited T] [DecidableEq T]

omit [DecidableEq T] in
theorem allocNode_isNull (level : Nat) : (allocNode level : Node T).isNull = false := by
  unfold allocNode
  split <;> rfl

theorem nodeWF_allocNode {level : Nat} (h : 1 ≤ level) : NodeWF level (allocNode level : Node T) := by
  unfold allocNode
  split
  · rename_i h1
    subst h1
    show 0 = leafCount _
    simp [leafCount, support]
  · obtain ⟨l, rfl⟩ : ∃ l, level = l + 2 := ⟨level - 2, by omega⟩
    exact ⟨by simp [childCount, support, Node.isNull], fun _ => nodeWF_null _⟩

omit [DecidableEq T] in
theorem get_allocNode (level j : Nat) : (allocNode level : Node T).get level j = default := by
  unfold allocNode
  split
  · rename_i h1
    subst h1
    rfl
  · match level with
    | 0 => rfl
    | l + 2 => exact Node.get_null _ _

/-- The child the walk of `insert` descends to: the one on the path, or a fresh node
in place of a null one. -/
theorem childOrAlloc_spec {c : Node T} {level : Nat} (hc : NodeWF (level + 1) c) :
    NodeWF (level + 1) (if c.isNull then allocNode (level + 1) else c) ∧
      (if c.isNull then allocNode (level + 1) else c).isNull = false ∧
      ∀ j, (if c.isNull then allocNode (level + 1) else c).get (level + 1) j =
        c.get (level + 1) j := by
  cases hn : c.isNull
  · exact ⟨hc, hn, fun _ => rfl⟩
  · rw [Node.isNull_iff.mp hn]
    exact ⟨nodeWF_allocNode (by omega), allocNode_isNull _, fun j => by
      rw [if_pos rfl, get_allocNode, Node.get_null]⟩

/-- The leaf step of `insert` writes the slot and keeps the count. -/
theorem storeValue_spec {vs : Fin 64 → T} {p : Nat} (h : NodeWF 1 (.leaf vs p)) (key : UInt64)
    (value : T) :
    NodeWF 1 (storeValue (.leaf vs p) (slotIndex key 1) value).1 ∧
      (storeValue (.leaf vs p) (slotIndex key 1) value).1.isNull = false ∧
      (storeValue (.leaf vs p) (slotIndex key 1) value).2 = (Node.leaf vs p).get 1 key.toNat ∧
      StoresUpdate 1 (.leaf vs p) (storeValue (.leaf vs p) (slotIndex key 1) value).1
        key.toNat value := by
  rw [slotIndex_succ key (by decide)]
  set i := digitFin key.toNat 0
  have hcount : p = leafCount vs := h
  have hp : (if (vs i == default) && (value != default) then p + 1
      else if !(vs i == default) && (value == default) then p - 1 else p) +
        (if vs i ≠ default then 1 else 0) = p + (if value ≠ default then 1 else 0) := by
    by_cases h₁ : vs i = default
    · by_cases h₂ : value = default <;> simp [h₁, h₂]
    · have := leafCount_pos h₁
      by_cases h₂ : value = default
      · simp [h₁, h₂]
        omega
      · simp [h₁, h₂]
  exact ⟨h.leaf_update i value hp, rfl, rfl, StoresUpdate.leaf vs p _ key.toNat value⟩

theorem insertNode_interior (key : UInt64) (value : T) (level : Nat) (cs : Fin 64 → Node T)
    (p : Nat) :
    insertNode key value (level + 2) (.interior cs p) =
      (.interior (Function.update cs (slotIndex key (level + 2))
          (insertNode key value (level + 1) (if (cs (slotIndex key (level + 2))).isNull
            then allocNode (level + 1) else cs (slotIndex key (level + 2)))).1)
          (if (cs (slotIndex key (level + 2))).isNull then p + 1 else p),
        (insertNode key value (level + 1) (if (cs (slotIndex key (level + 2))).isNull
          then allocNode (level + 1) else cs (slotIndex key (level + 2)))).2) := by
  cases h : (cs (slotIndex key (level + 2))).isNull <;>
    simp [insertNode, Node.childAt, Node.setChild, Node.populated, h]

/-- **The walk of `insert` writes the key's slot.**  From a well-formed, non-null
node it returns a well-formed, non-null node that stores `value` at the key and what
the node stored elsewhere, with the value the slot held. -/
theorem insertNode_spec (key : UInt64) (value : T) : ∀ {level : Nat} {n : Node T},
    1 ≤ level → level ≤ maxDepth → NodeWF level n → n.isNull = false →
    NodeWF level (insertNode key value level n).1 ∧
      (insertNode key value level n).1.isNull = false ∧
      (insertNode key value level n).2 = n.get level key.toNat ∧
      StoresUpdate level n (insertNode key value level n).1 key.toNat value
  | 0, _, h, _, _, _ => absurd h (by decide)
  | 1, .null, _, _, _, hn => by cases hn
  | 1, .interior _ _, _, _, hwf, _ => hwf.elim
  | 1, .leaf vs p, _, _, hwf, _ => storeValue_spec hwf key value
  | level + 2, .null, _, _, _, hn => by cases hn
  | level + 2, .leaf _ _, _, _, hwf, _ => hwf.elim
  | level + 2, .interior cs p, _, h₂, hwf, _ => by
    rw [insertNode_interior, slotIndex_succ key h₂]
    set i := digitFin key.toNat (level + 1)
    obtain ⟨hc₀, hn₀, hg₀⟩ := childOrAlloc_spec (hwf.2 i)
    obtain ⟨hwf', hn', hold', hst'⟩ := insertNode_spec key value (by omega) (by omega) hc₀ hn₀
    refine ⟨hwf.interior_update i hwf' ?_, rfl, ?_, StoresUpdate.interior (hst'.congr hg₀) _ _⟩
    · rw [hn']
      cases (cs i).isNull <;> simp
    · rw [hold', hg₀]
      rfl

theorem removeNode_interior (key : UInt64) (isRoot : Bool) (level : Nat) (cs : Fin 64 → Node T)
    (p : Nat) :
    removeNode key isRoot (level + 2) (.interior cs p) =
      if (cs (slotIndex key (level + 2))).isNull then none
      else (removeNode key false (level + 1) (cs (slotIndex key (level + 2)))).map fun r =>
        if r.1.isNull then
          if p - 1 = 0 && !isRoot then (.null, r.2)
          else (.interior (Function.update cs (slotIndex key (level + 2)) .null) (p - 1), r.2)
        else (.interior (Function.update cs (slotIndex key (level + 2)) r.1) p, r.2) := rfl

theorem removeNode_leaf (key : UInt64) (isRoot : Bool) (vs : Fin 64 → T) (p : Nat) :
    removeNode key isRoot 1 (.leaf vs p) =
      if vs (slotIndex key 1) = default then none
      else if p - 1 = 0 && !isRoot then some (.null, vs (slotIndex key 1))
      else some (.leaf (Function.update vs (slotIndex key 1) default) (p - 1),
        vs (slotIndex key 1)) := rfl

/-- What `remove` does at a node of `level`: `none` when the key is not set there, and
otherwise the value it held, and a well-formed node that stores `T{}` at the key and
what the node stored elsewhere. -/
def Removed (key : UInt64) (level : Nat) (n : Node T) : Option (Node T × T) → Prop
  | none => n.get level key.toNat = default
  | some r => r.2 = n.get level key.toNat ∧ r.2 ≠ default ∧ NodeWF level r.1 ∧
      StoresUpdate level n r.1 key.toNat default

/-- The leaf step of `remove`, with the freeing of an emptied leaf. -/
theorem removeNode_leaf_spec {vs : Fin 64 → T} {p : Nat} (hwf : NodeWF 1 (.leaf vs p))
    (key : UInt64) (isRoot : Bool) :
    Removed key 1 (.leaf vs p) (removeNode key isRoot 1 (.leaf vs p)) := by
  rw [removeNode_leaf, slotIndex_succ key (by decide)]
  set i := digitFin key.toNat 0
  by_cases hold : vs i = default
  · rw [if_pos hold]
    exact hold
  · rw [if_neg hold]
    have hpos := leafCount_pos hold
    have hcount : p = leafCount vs := hwf
    have hwf' : NodeWF 1 (.leaf (Function.update vs i default) (p - 1)) :=
      hwf.leaf_update i default (by simp [hold]; omega)
    have hst := StoresUpdate.leaf vs p (p - 1) key.toNat default
    split
    · rename_i hz
      refine ⟨rfl, hold, nodeWF_null 1, hst.congr_right fun j => ?_⟩
      have h0 : leafCount (Function.update vs i default) = 0 := by
        rw [← show p - 1 = leafCount (Function.update vs i default) from hwf']
        simp only [Bool.and_eq_true, decide_eq_true_eq] at hz
        exact hz.1
      rw [Node.get_null, get_leaf_of_leafCount_eq_zero h0]
    · exact ⟨rfl, hold, hwf', hst⟩

/-- **The walk of `remove` clears the key's slot**, frees the nodes it empties below
the root, and keeps the counts. -/
theorem removeNode_spec (key : UInt64) : ∀ {level : Nat} {n : Node T} (isRoot : Bool),
    1 ≤ level → level ≤ maxDepth → NodeWF level n →
    Removed key level n (removeNode key isRoot level n)
  | 0, _, _, h, _, _ => absurd h (by decide)
  | 1, .null, isRoot, _, _, _ => by
    rw [show removeNode key isRoot 1 (.null : Node T) = none by simp [removeNode, Node.valueAt]]
    exact Node.get_null 1 _
  | 1, .interior _ _, _, _, _, hwf => hwf.elim
  | 1, .leaf vs p, isRoot, _, _, hwf => removeNode_leaf_spec hwf key isRoot
  | level + 2, .null, _, _, _, _ => Node.get_null _ _
  | level + 2, .leaf _ _, _, _, _, hwf => hwf.elim
  | level + 2, .interior cs p, isRoot, _, h₂, hwf => by
    rw [removeNode_interior, slotIndex_succ key h₂]
    set i := digitFin key.toNat (level + 1)
    by_cases hc : (cs i).isNull
    · rw [if_pos hc]
      show (cs i).get (level + 1) key.toNat = default
      rw [Node.isNull_iff.mp hc, Node.get_null]
    · rw [if_neg hc]
      have ih := removeNode_spec key false (by omega) (by omega) (hwf.2 i)
      cases hR : removeNode key false (level + 1) (cs i) with
      | none =>
        rw [hR] at ih
        exact ih
      | some r' =>
        rw [hR] at ih
        obtain ⟨hold, hne, hwf', hst'⟩ := ih
        have hpos := childCount_pos (Bool.eq_false_iff.mpr hc)
        have hst := fun p' => StoresUpdate.interior hst' p p'
        simp only [Option.map_some]
        by_cases hfree : r'.1.isNull
        · have hnull := Node.isNull_iff.mp hfree
          have hwfn : NodeWF (level + 2) (.interior (Function.update cs i .null) (p - 1)) :=
            hwf.interior_update i (nodeWF_null _) (by
              have hcount : p = childCount cs := hwf.1
              rw [if_neg hc, show (Node.null : Node T).isNull = true from rfl, if_pos rfl]
              omega)
          rw [if_pos hfree]
          by_cases hz : (decide (p - 1 = 0) && !isRoot) = true
          · rw [if_pos hz]
            have h0 : childCount (Function.update cs i .null) = 0 := by
              rw [← hwfn.1]
              simp only [Bool.and_eq_true, decide_eq_true_eq] at hz
              exact hz.1
            refine ⟨hold, hne, nodeWF_null _, (hst (p - 1)).congr_right fun j => ?_⟩
            rw [Node.get_null, hnull, get_interior_of_childCount_eq_zero h0]
          · rw [if_neg hz, ← hnull]
            exact ⟨hold, hne, hnull ▸ hwfn, hst (p - 1)⟩
        · rw [if_neg hfree]
          exact ⟨hold, hne, hwf.interior_update i hwf' (by simp [hc, hfree]), hst p⟩

omit [DecidableEq T] in
/-- `lookup`'s walk reads what the node stores at the key. -/
theorem lookupNode_eq_get (key : UInt64) : ∀ {level : Nat} (n : Node T), 1 ≤ level →
    level ≤ maxDepth → lookupNode key level n = n.get level key.toNat
  | 0, _, h, _ => absurd h (by decide)
  | 1, n, _, _ => by
    show n.valueAt (slotIndex key 1) = n.valueAt (digitFin key.toNat 0)
    rw [slotIndex_succ key (by decide)]
  | level + 2, n, _, h₂ => by
    rw [lookupNode, Node.get, slotIndex_succ key h₂]
    split
    · rename_i hc
      rw [Node.isNull_iff.mp hc, Node.get_null]
    · exact lookupNode_eq_get key _ (by omega) (by omega)

end RadixTree

/-! ## The walk of `for_each` -/

namespace RadixTree
variable {T : Type} [Inhabited T] [DecidableEq T]

/-- Below a multiple `b` of `P`, a multiple `a` of `P` leaves room for `P` more. -/
theorem add_le_of_dvd_of_lt {P a b : Nat} (ha : P ∣ a) (hb : P ∣ b) (h : a < b) : a + P ≤ b := by
  obtain ⟨q, rfl⟩ := ha
  obtain ⟨r, rfl⟩ := hb
  have hq : q < r := Nat.lt_of_mul_lt_mul_left h
  calc P * q + P = P * (q + 1) := by ring
    _ ≤ P * r := Nat.mul_le_mul_left P hq

theorem pow64_eq (l : Nat) : 64 ^ l = 2 ^ (l * bitsPerLevel) := by
  rw [bitsPerLevel, Nat.mul_comm, Nat.pow_mul]

/-- The slots of the levels below a child fill exactly the child's share. -/
theorem mul_pow_add_lt {i j level : Nat} (hi : i < 64) (hj : j < 64 ^ (level + 1)) :
    i * 64 ^ (level + 1) + j < 64 ^ (level + 2) :=
  calc i * 64 ^ (level + 1) + j < (i + 1) * 64 ^ (level + 1) := by rw [Nat.succ_mul]; omega
    _ ≤ 64 * 64 ^ (level + 1) := Nat.mul_le_mul_right _ hi
    _ = 64 ^ (level + 2) := by rw [Nat.pow_succ 64 (level + 1), Nat.mul_comm]

/-- At a leaf the key is the base plus the slot. -/
theorem toNat_leafKey {base : UInt64} {i : Nat} (hb : 64 ∣ base.toNat) (hi : i < 64) :
    (base ||| UInt64.ofNat i).toNat = base.toNat + i := by
  rw [UInt64.toNat_or, UInt64.toNat_ofNat_of_lt' (by unfold UInt64.size; omega)]
  exact BitFields.or_eq_add_of_dvd (m := 6) hb hi

/-- **The base of child `i`** is the node's base plus `i` shares of the level below,
modulo `2^64`: the slot and the base have no bit in common, and only below the root
of a tree of depth 11, whose base is 0, can the shift overflow. -/
theorem toNat_childBase {base : UInt64} {level : Nat} (h : level + 2 ≤ maxDepth)
    (hb : 64 ^ (level + 2) ∣ base.toNat) (i : Fin 64) :
    (childBase base level i).toNat = (base.toNat + i.val * 64 ^ (level + 1)) % 2 ^ 64 := by
  have hs : (level + 1) * bitsPerLevel < 64 := by
    unfold bitsPerLevel
    unfold maxDepth at h
    omega
  unfold childBase
  rw [UInt64.toNat_or, UInt64.toNat_shiftLeft, UInt64.toNat_ofNat_of_lt' (by
      have := i.isLt; unfold UInt64.size; omega),
    UInt64.toNat_ofNat_of_lt' (by unfold UInt64.size; omega), Nat.mod_eq_of_lt hs,
    Nat.shiftLeft_eq, ← pow64_eq]
  have hc : i.val * 64 ^ (level + 1) < 64 ^ (level + 2) := by
    simpa using mul_pow_add_lt (j := 0) i.isLt (Nat.pow_pos (by decide))
  rcases Nat.lt_or_ge (level + 2) 11 with hl | hl
  · have hdvd : 64 ^ (level + 2) ∣ 2 ^ 64 := by
      rw [pow64_eq]
      exact Nat.pow_dvd_pow 2 (by unfold bitsPerLevel; omega)
    have hroom := add_le_of_dvd_of_lt hb hdvd (UInt64.toNat_lt base)
    rw [Nat.mod_eq_of_lt (by omega : i.val * 64 ^ (level + 1) < 2 ^ 64),
      Nat.mod_eq_of_lt (by omega : base.toNat + i.val * 64 ^ (level + 1) < 2 ^ 64)]
    rw [pow64_eq (level + 2)] at hb hc
    exact BitFields.or_eq_add_of_dvd hb hc
  · have hbig : 2 ^ 64 < 64 ^ (level + 2) := by
      unfold maxDepth at h
      rw [show level + 2 = 11 by omega]
      decide
    have h0 : base.toNat = 0 := Nat.eq_zero_of_dvd_of_lt hb ((UInt64.toNat_lt base).trans hbig)
    rw [h0, Nat.zero_or, Nat.zero_add]

/-- A child's keys are the node's keys at the child's share of offsets. -/
theorem ofNat_childBase_add {base : UInt64} {level : Nat} (h : level + 2 ≤ maxDepth)
    (hb : 64 ^ (level + 2) ∣ base.toNat) (i : Fin 64) (j : Nat) :
    UInt64.ofNat ((childBase base level i).toNat + j) =
      UInt64.ofNat (base.toNat + (i.val * 64 ^ (level + 1) + j)) := by
  rw [toNat_childBase h hb, ← UInt64.ofNat_mod_size, Nat.mod_add_mod, UInt64.ofNat_mod_size,
    Nat.add_assoc]

theorem dvd_childBase {base : UInt64} {level : Nat} (h : level + 2 ≤ maxDepth)
    (hb : 64 ^ (level + 2) ∣ base.toNat) (i : Fin 64) :
    64 ^ (level + 1) ∣ (childBase base level i).toNat := by
  have hdvd : 64 ^ (level + 1) ∣ 2 ^ 64 := by
    rw [pow64_eq]
    exact Nat.pow_dvd_pow 2 (by unfold bitsPerLevel; unfold maxDepth at h; omega)
  rw [toNat_childBase h hb, Nat.dvd_mod_iff hdvd]
  exact Nat.dvd_add (Nat.dvd_trans (Nat.pow_dvd_pow 64 (Nat.le_succ _)) hb)
    (Nat.dvd_mul_left _ _)

omit [DecidableEq T] in
/-- What an interior node stores at an offset of child `i`'s share. -/
theorem get_interior_share (n : Node T) (level : Nat) (i : Fin 64) {j : Nat}
    (hj : j < 64 ^ (level + 1)) :
    n.get (level + 2) (i.val * 64 ^ (level + 1) + j) = (n.childAt i).get (level + 1) j := by
  have hd : digitFin (i.val * 64 ^ (level + 1) + j) (level + 1) = i :=
    Fin.ext (digit_mul_pow_add i.isLt hj)
  rw [Node.get, hd]
  exact Node.get_congr _ (by omega) (by rw [mul_pow_add_mod hj, Nat.mod_eq_of_lt hj])

/-- The entries a node at `level` stores, at keys counted from `base`. -/
def StoredAt (base : UInt64) (level : Nat) (n : Node T) (k : UInt64) (v : T) : Prop :=
  ∃ j < 64 ^ level, n.get level j ≠ default ∧ v = n.get level j ∧
    k = UInt64.ofNat (base.toNat + j)

omit [DecidableEq T] in
theorem get_one (n : Node T) (j : Nat) : n.get 1 j = n.valueAt (digitFin j 0) := rfl

theorem digitFin_val_zero (i : Fin 64) : digitFin i.val 0 = i :=
  Fin.ext (by simp [digitFin, digit, Nat.mod_eq_of_lt i.isLt])

@[simp] theorem iterateNode_null : ∀ (base : UInt64) (level : Nat),
    iterateNode base level (.null : Node T) = []
  | _, 0 => rfl
  | _, 1 => by simp [iterateNode, Node.valueAt]
  | _, _ + 2 => by simp [iterateNode, Node.childAt, Node.isNull]

theorem iterateNode_ite_null (b : UInt64) (level : Nat) (c : Node T) :
    (if c.isNull then [] else iterateNode b level c) = iterateNode b level c := by
  cases h : c.isNull
  · rfl
  · rw [if_pos rfl, Node.isNull_iff.mp h, iterateNode_null]

/-- **`iterate_node` calls back exactly with what the node stores**, at keys counted
from its base. -/
theorem mem_iterateNode : ∀ {level : Nat} {base : UInt64} {n : Node T} {k : UInt64} {v : T},
    1 ≤ level → level ≤ maxDepth → 64 ^ level ∣ base.toNat →
    ((k, v) ∈ iterateNode base level n ↔ StoredAt base level n k v)
  | 0, _, _, _, _, h, _, _ => absurd h (by decide)
  | 1, base, n, k, v, _, _, hb => by
    have hb' : 64 ∣ base.toNat := by simpa using hb
    simp only [iterateNode, List.mem_filterMap, List.mem_finRange, true_and,
      Option.ite_none_right_eq_some, Option.some.injEq, Prod.mk.injEq, bne_iff_ne, ne_eq]
    constructor
    · rintro ⟨i, hne, hk, hv⟩
      refine ⟨i.val, by simp, ?_, ?_, ?_⟩
      · rwa [get_one, digitFin_val_zero]
      · rw [get_one, digitFin_val_zero, hv]
      · rw [← hk, ← toNat_leafKey hb' i.isLt, UInt64.ofNat_toNat]
    · rintro ⟨j, hj, hne, hv, hk⟩
      have hj' : j < 64 := by simpa using hj
      have hi : digitFin j 0 = ⟨j, hj'⟩ := Fin.ext (by simp [digitFin, digit, Nat.mod_eq_of_lt hj'])
      rw [get_one, hi] at hne hv
      refine ⟨⟨j, hj'⟩, hne, ?_, hv.symm⟩
      rw [hk, ← toNat_leafKey hb' hj', UInt64.ofNat_toNat]
  | level + 2, base, n, k, v, _, h₂, hb => by
    simp only [iterateNode, List.mem_flatMap, List.mem_finRange, true_and, iterateNode_ite_null]
    rw [exists_congr fun i =>
      mem_iterateNode (n := n.childAt i) (by omega) (by omega) (dvd_childBase h₂ hb i)]
    constructor
    · rintro ⟨i, j, hj, hne, hv, hk⟩
      refine ⟨i.val * 64 ^ (level + 1) + j, mul_pow_add_lt i.isLt hj, ?_, ?_, ?_⟩
      · rwa [get_interior_share n level i hj]
      · rwa [get_interior_share n level i hj]
      · rw [hk, ofNat_childBase_add h₂ hb]
    · rintro ⟨j, hj, hne, hv, hk⟩
      have hsplit := eq_digit_mul_pow_add hj
      have hj' : j % 64 ^ (level + 1) < 64 ^ (level + 1) := Nat.mod_lt _ (Nat.pow_pos (by decide))
      have hget := get_interior_share n level (digitFin j (level + 1)) hj'
      rw [show (digitFin j (level + 1)).val * 64 ^ (level + 1) + j % 64 ^ (level + 1) = j from
        hsplit.symm] at hget
      refine ⟨digitFin j (level + 1), j % 64 ^ (level + 1), hj', hget ▸ hne, hget ▸ hv, ?_⟩
      rw [hk, ofNat_childBase_add h₂ hb]
      exact congrArg (fun x => UInt64.ofNat (base.toNat + x)) hsplit

/-- **`iterate_node` calls back in increasing key order**, when no key of what the
node stores wraps around. -/
theorem iterateNode_sorted : ∀ {level : Nat} {base : UInt64} {n : Node T},
    1 ≤ level → level ≤ maxDepth → 64 ^ level ∣ base.toNat →
    (∀ j < 64 ^ level, n.get level j ≠ default → base.toNat + j < 2 ^ 64) →
    (iterateNode base level n).Pairwise (fun a b => a.1 < b.1)
  | 0, _, _, h, _, _, _ => absurd h (by decide)
  | 1, base, n, _, _, hb, _ => by
    have hb' : 64 ∣ base.toNat := by simpa using hb
    refine List.Pairwise.filterMap _ (fun i i' hii' b hb₁ b' hb₂ => ?_) (List.pairwise_lt_finRange 64)
    rw [Option.ite_none_right_eq_some, Option.some.injEq] at hb₁ hb₂
    rw [← hb₁.2, ← hb₂.2, UInt64.lt_iff_toNat_lt, toNat_leafKey hb' i.isLt,
      toNat_leafKey hb' i'.isLt]
    exact Nat.add_lt_add_left hii' _
  | level + 2, base, n, _, h₂, hb, hfit => by
    rw [iterateNode, List.pairwise_flatMap]
    simp only [iterateNode_ite_null]
    refine ⟨fun i _ => iterateNode_sorted (by omega) (by omega) (dvd_childBase h₂ hb i)
      (fun j hj hne => ?_), ?_⟩
    · have hw := hfit _ (mul_pow_add_lt i.isLt hj) (by rwa [get_interior_share n level i hj])
      rw [toNat_childBase h₂ hb, Nat.mod_eq_of_lt (by omega)]
      omega
    · refine (List.pairwise_lt_finRange 64).imp fun {i i'} hii' x hx y hy => ?_
      obtain ⟨j, hj, hne, -, hk⟩ := (mem_iterateNode (k := x.1) (v := x.2) (by omega) (by omega)
        (dvd_childBase h₂ hb i)).mp hx
      obtain ⟨j', hj', hne', -, hk'⟩ := (mem_iterateNode (k := y.1) (v := y.2) (by omega)
        (by omega) (dvd_childBase h₂ hb i')).mp hy
      rw [get_interior_share n level i hj |>.symm] at hne
      rw [get_interior_share n level i' hj' |>.symm] at hne'
      have hw := hfit _ (mul_pow_add_lt i.isLt hj) hne
      have hw' := hfit _ (mul_pow_add_lt i'.isLt hj') hne'
      have hlt : i.val * 64 ^ (level + 1) + j < i'.val * 64 ^ (level + 1) + j' :=
        calc i.val * 64 ^ (level + 1) + j < (i.val + 1) * 64 ^ (level + 1) := by
              rw [Nat.succ_mul]; omega
          _ ≤ i'.val * 64 ^ (level + 1) := Nat.mul_le_mul_right _ hii'
          _ ≤ _ := Nat.le_add_right _ _
      rw [hk, hk', ofNat_childBase_add h₂ hb, ofNat_childBase_add h₂ hb, UInt64.lt_iff_toNat_lt,
        UInt64.toNat_ofNat_of_lt' hw, UInt64.toNat_ofNat_of_lt' hw']
      omega

end RadixTree

/-! ## Trees and the maps they stand for -/

namespace RadixTree
variable {T : Type} [Inhabited T] [DecidableEq T]

/-- **The tree `t` stands for the map `m`.**  Its depth lies in `[1, 11]`; its nodes
are well formed, with exact counts; its root stores each key's value below the
capacity and nothing at the offsets from the capacity on; `m` has no key from the
capacity on; and `m_size` is the number of keys of `m`. -/
structure Represents (t : RadixTree T) (m : UInt64 → T) : Prop where
  depth_pos : 1 ≤ t.depth
  depth_le : t.depth ≤ maxDepth
  wf : NodeWF t.depth t.root
  get_eq : ∀ k : UInt64, k < capacityAtDepth t.depth → t.root.get t.depth k.toNat = m k
  get_above : ∀ j < 64 ^ t.depth, (capacityAtDepth t.depth).toNat ≤ j →
    t.root.get t.depth j = default
  map_above : ∀ k : UInt64, capacityAtDepth t.depth ≤ k → m k = default
  size_eq : t.size = (support default m).card

/-- A tree without nodes, of any depth in `[1, 11]`, stands for the empty map. -/
theorem represents_null {d : Nat} (h₁ : 1 ≤ d) (h₂ : d ≤ maxDepth) :
    Represents ({ root := .null, size := 0, depth := d } : RadixTree T) (fun _ => default) where
  depth_pos := h₁
  depth_le := h₂
  wf := nodeWF_null d
  get_eq _ _ := Node.get_null _ _
  get_above _ _ _ := Node.get_null _ _
  map_above _ _ := rfl
  size_eq := by simp [support]

/-- `RadixTree()` stands for the empty map. -/
theorem represents_empty : Represents ({} : RadixTree T) (fun _ => default) :=
  represents_null le_rfl (by decide)

variable {t : RadixTree T} {m : UInt64 → T}

/-- **`lookup` returns the map's value.** -/
theorem Represents.lookup_eq (h : Represents t m) (k : UInt64) : t.lookup k = m k := by
  unfold lookup
  by_cases hk : capacityAtDepth t.depth ≤ k
  · rw [if_pos (by simp [hk]), h.map_above k hk]
  · have hlt : k < capacityAtDepth t.depth := UInt64.lt_iff_toNat_lt.mpr
      (Nat.lt_of_not_le fun h' => hk (UInt64.le_iff_toNat_le.mpr h'))
    rw [← h.get_eq k hlt]
    cases hn : t.root.isNull
    · rw [if_neg (by simp [hk]), lookupNode_eq_get k _ h.depth_pos h.depth_le]
    · rw [if_pos (by simp), Node.isNull_iff.mp hn, Node.get_null]

/-- A key the map sets lies below the capacity. -/
theorem Represents.lt_capacity (h : Represents t m) {k : UInt64} (hk : m k ≠ default) :
    k < capacityAtDepth t.depth :=
  UInt64.lt_iff_toNat_lt.mpr (Nat.lt_of_not_le fun h' =>
    hk (h.map_above k (UInt64.le_iff_toNat_le.mpr h')))

/-! ### `grow_depth` -/

omit [DecidableEq T] in
/-- The root `grow_depth` makes stores the old root's values in child 0's share of
offsets and nothing elsewhere. -/
theorem growDepth_get (t : RadixTree T) (hd : 1 ≤ t.depth) (j : Nat) :
    t.growDepth.root.get (t.depth + 1) j =
      if digit 64 j t.depth = 0 then t.root.get t.depth j else default := by
  obtain ⟨l, hl⟩ : ∃ l, t.depth = l + 1 := ⟨t.depth - 1, by omega⟩
  have hz : digitFin j (l + 1) = 0 ↔ digit 64 j (l + 1) = 0 := Fin.ext_iff
  unfold growDepth
  rw [hl]
  cases hn : t.root.isNull
  · simp only [Bool.false_eq_true, if_false, Node.get_interior, Function.update_apply]
    by_cases h0 : digit 64 j (l + 1) = 0
    · rw [if_pos (hz.mpr h0), if_pos h0]
    · rw [if_neg (mt hz.mp h0), if_neg h0, Node.get_null]
  · simp only [if_true, Node.get_interior, Node.get_null, Node.isNull_iff.mp hn, ite_self]

theorem nodeWF_emptyInterior (level : Nat) :
    NodeWF (level + 2) (.interior (fun _ => .null) 0 : Node T) :=
  ⟨by simp [childCount, support, Node.isNull], fun _ => nodeWF_null _⟩

/-- **Growing the depth re-roots the tree without changing what it stores.** -/
theorem Represents.growDepth (h : Represents t m) (hd : t.depth ≤ 10) :
    Represents t.growDepth m := by
  have h₁ := h.depth_pos
  have hcap := capacity_toNat h₁ hd
  have hcap' := pow_le_capacity_succ h₁ hd
  have hpos : 0 < 64 ^ t.depth := Nat.pow_pos (by decide)
  obtain ⟨l, hl⟩ : ∃ l, t.depth = l + 1 := ⟨t.depth - 1, by omega⟩
  have hout : ∀ j, 64 ^ t.depth ≤ j → j < 64 ^ (t.depth + 1) → digit 64 j t.depth ≠ 0 :=
    fun j hj hj' h0 => Nat.not_lt_of_le hj (lt_pow_of_digit_eq_zero hj' h0)
  have hdepth : t.growDepth.depth = t.depth + 1 := rfl
  refine ⟨by omega, by unfold maxDepth; omega, ?_, fun k hk => ?_, fun j hj hj' => ?_,
    fun k hk => ?_, h.size_eq⟩
  · show NodeWF (t.depth + 1) (if t.root.isNull then _ else _)
    rw [hl]
    cases hn : t.root.isNull
    · have hwf : NodeWF (l + 2) (.interior (Function.update (fun _ => .null) 0 t.root) 1) :=
        (nodeWF_emptyInterior l).interior_update 0 (hl ▸ h.wf) (by rw [hn]; rfl)
      exact hwf
    · exact nodeWF_emptyInterior l
  · change t.growDepth.root.get (t.depth + 1) k.toNat = m k
    have hk' := toNat_lt_pow_of_lt_capacity (by omega) (by unfold maxDepth; omega) hk
    rw [growDepth_get t h₁]
    by_cases h0 : digit 64 k.toNat t.depth = 0
    · rw [if_pos h0]
      exact h.get_eq k (UInt64.lt_iff_toNat_lt.mpr (hcap ▸ lt_pow_of_digit_eq_zero hk' h0))
    · rw [if_neg h0]
      have hge : 64 ^ t.depth ≤ k.toNat := Nat.le_of_not_lt fun hlt => h0 (digit_eq_zero_of_lt hlt)
      exact (h.map_above k (UInt64.le_iff_toNat_le.mpr (hcap ▸ hge))).symm
  · change t.growDepth.root.get (t.depth + 1) j = default
    rw [growDepth_get t h₁, if_neg (hout j (hcap'.trans hj') hj)]
  · have hle : capacityAtDepth t.depth ≤ k := UInt64.le_iff_toNat_le.mpr
      (by rw [hcap]; exact hcap'.trans (UInt64.le_iff_toNat_le.mp hk))
    exact h.map_above k hle

/-- No capacity lies above `UINT64_MAX`. -/
theorem not_uint64Max_lt_capacity (d : Nat) : ¬ uint64Max < capacityAtDepth d := fun h =>
  Nat.not_lt.mpr (UInt64.le_iff_toNat_le.mp (capacity_le_uint64Max d)) (UInt64.lt_iff_toNat_lt.mp h)

omit [Inhabited T] [DecidableEq T] in
/-- `insert` of `UINT64_MAX` never leaves its growth loop but by a failed allocation. -/
theorem growLoop_uint64Max : ∀ (n : Nat) (t : RadixTree T), growLoop uint64Max n t = none
  | 0, t => by
    rw [growLoop, if_neg (not_uint64Max_lt_capacity _)]
  | n + 1, t => by
    rw [growLoop, if_neg (not_uint64Max_lt_capacity _)]
    exact growLoop_uint64Max n _

/-- The growth loop ends with a tree whose capacity covers the key, standing for the
same map. -/
theorem Represents.growLoop {key : UInt64} : ∀ {n : Nat} {t t' : RadixTree T},
    Represents t m → n + t.depth ≤ maxDepth → RadixTree.growLoop key n t = some t' →
    Represents t' m ∧ key < capacityAtDepth t'.depth
  | 0, t, t', h, _, hg => by
    rw [RadixTree.growLoop] at hg
    split at hg
    · rename_i hk
      cases hg
      exact ⟨h, hk⟩
    · cases hg
  | n + 1, t, t', h, hn, hg => by
    rw [RadixTree.growLoop] at hg
    split at hg
    · rename_i hk
      cases hg
      exact ⟨h, hk⟩
    · -- the key is not covered yet: one more level
      have hd : t.depth ≤ 10 := by unfold maxDepth at hn; omega
      exact (h.growDepth hd).growLoop (by show n + (t.depth + 1) ≤ maxDepth; omega) hg

omit [Inhabited T] [DecidableEq T] in
/-- From a tree of depth at most 11, the growth loop reaches a capacity above every
key but `UINT64_MAX`. -/
theorem growLoop_isSome {key : UInt64} (hkey : key ≠ uint64Max) : ∀ {n : Nat} {t : RadixTree T},
    n + t.depth = maxDepth → (RadixTree.growLoop key n t).isSome
  | 0, t, hn => by
    rw [RadixTree.growLoop]
    split
    · rfl
    · -- at depth 11 the capacity is `UINT64_MAX`, above every other key
      rename_i hk
      have hd : t.depth = 11 := by unfold maxDepth at hn; omega
      have hlt : key < uint64Max := UInt64.lt_iff_toNat_lt.mpr (Nat.lt_of_le_of_ne
        (Nat.le_of_lt_succ (UInt64.toNat_lt key)) fun h => hkey (UInt64.toNat_inj.mp h))
      exact absurd (by rw [hd]; exact hlt) hk
  | n + 1, t, hn => by
    rw [RadixTree.growLoop]
    split
    · rfl
    · exact growLoop_isSome hkey (by show n + (t.depth + 1) = maxDepth; omega)

/-! ### `insert` -/

/-- The root `insert` walks from: the tree's own, or a fresh node for an empty tree. -/
theorem Represents.rootOrAlloc (h : Represents t m) :
    NodeWF t.depth (if t.root.isNull then allocNode t.depth else t.root) ∧
      (if t.root.isNull then allocNode t.depth else t.root).isNull = false ∧
      ∀ j, (if t.root.isNull then allocNode t.depth else t.root).get t.depth j =
        t.root.get t.depth j := by
  obtain ⟨l, hl⟩ : ∃ l, t.depth = l + 1 := ⟨t.depth - 1, by have := h.depth_pos; omega⟩
  rw [hl]
  exact childOrAlloc_spec (hl ▸ h.wf)

/-- Two keys below `64^d` are equal when they agree below `64^d`. -/
theorem mod_pow_eq_iff {d : Nat} {k key : UInt64} (hk : k.toNat < 64 ^ d)
    (hkey : key.toNat < 64 ^ d) : k.toNat % 64 ^ d = key.toNat % 64 ^ d ↔ k = key := by
  rw [Nat.mod_eq_of_lt hk, Nat.mod_eq_of_lt hkey, UInt64.toNat_inj]

/-- The keys of a tree that stores an update of its map at a key below the capacity:
the update of the map. -/
theorem Represents.update {t' : RadixTree T} (h : Represents t m) (key : UInt64) (v : T)
    (hkey : key < capacityAtDepth t.depth) (hd : t'.depth = t.depth)
    (hwf : NodeWF t'.depth t'.root) (hst : StoresUpdate t.depth t.root t'.root key.toNat v)
    (hsize : t'.size = (support default (Function.update m key v)).card) :
    Represents t' (Function.update m key v) := by
  have hkey' := toNat_lt_pow_of_lt_capacity h.depth_pos h.depth_le hkey
  refine ⟨hd ▸ h.depth_pos, hd ▸ h.depth_le, hwf, fun k hk => ?_, fun j hj hj' => ?_,
    fun k hk => ?_, hsize⟩
  · rw [hd] at hk ⊢
    have hk' := toNat_lt_pow_of_lt_capacity h.depth_pos h.depth_le hk
    rw [hst k.toNat, Function.update_apply]
    exact if_congr (mod_pow_eq_iff hk' hkey') rfl (h.get_eq k hk)
  · rw [hd] at hj hj' ⊢
    have hne : j % 64 ^ t.depth ≠ key.toNat % 64 ^ t.depth := by
      rw [Nat.mod_eq_of_lt hj, Nat.mod_eq_of_lt hkey']
      have := UInt64.lt_iff_toNat_lt.mp hkey
      omega
    rw [hst j, if_neg hne, h.get_above j hj hj']
  · rw [hd] at hk
    have hne : k ≠ key := by
      rintro rfl
      exact Nat.not_lt.mpr (UInt64.le_iff_toNat_le.mp hk) (UInt64.lt_iff_toNat_lt.mp hkey)
    rw [Function.update_of_ne hne, h.map_above k hk]

/-- **A successful `insert` stores the value at the key.** -/
theorem Represents.insert {t' : RadixTree T} (h : Represents t m) {key : UInt64} {value : T}
    (hi : t.insert key value = some t') : Represents t' (Function.update m key value) := by
  simp only [RadixTree.insert, Option.bind_eq_bind, Option.bind_eq_some_iff, Option.pure_def,
    Option.some.injEq] at hi
  obtain ⟨t₁, hg, rfl⟩ := hi
  obtain ⟨h₁, hk⟩ := h.growLoop (by have := h.depth_le; omega) hg
  obtain ⟨hw₀, hn₀, hg₀⟩ := h₁.rootOrAlloc
  obtain ⟨hwf, -, hold, hst⟩ :=
    insertNode_spec key value h₁.depth_pos h₁.depth_le hw₀ hn₀
  rw [hg₀, h₁.get_eq key hk] at hold
  refine h₁.update key value hk rfl hwf (hst.congr hg₀) ?_
  have hc := card_support_update (d := default) m key value
  have hpos : m key ≠ default → 0 < (support default m).card := fun hne =>
    Finset.card_pos.mpr ⟨key, mem_support.mpr hne⟩
  show (if (_ == default) && (value != default) then _ else _) = _
  rw [hold, h₁.size_eq]
  by_cases h₁ : m key = default
  · by_cases h₂ : value = default
    · simp_all
    · simp_all
  · have := hpos h₁
    by_cases h₂ : value = default
    · simp [h₁, h₂] at hc ⊢
      omega
    · simp_all

/-! ### `remove` -/

/-- **`remove` clears the key and returns its value.** -/
theorem Represents.remove (h : Represents t m) (key : UInt64) :
    Represents (t.remove key).1 (Function.update m key default) ∧ (t.remove key).2 = m key := by
  have hsame : m key = default → Represents t (Function.update m key default) ∧ default = m key :=
    fun hk => ⟨by rw [← hk, Function.update_eq_self]; exact h, hk.symm⟩
  unfold RadixTree.remove
  by_cases hcap : capacityAtDepth t.depth ≤ key
  · rw [if_pos (by simp [hcap])]
    exact hsame (h.map_above key hcap)
  have hk : key < capacityAtDepth t.depth := UInt64.lt_iff_toNat_lt.mpr
    (Nat.lt_of_not_le fun h' => hcap (UInt64.le_iff_toNat_le.mpr h'))
  cases hn : t.root.isNull
  · rw [if_neg (by simp [hcap])]
    have hr := removeNode_spec key true h.depth_pos h.depth_le h.wf
    cases hR : removeNode key true t.depth t.root with
    | none =>
      rw [hR] at hr
      exact hsame ((h.get_eq key hk).symm.trans hr)
    | some r =>
      rw [hR] at hr
      obtain ⟨hold, hne, hwf, hst⟩ := hr
      rw [h.get_eq key hk] at hold
      dsimp only
      refine ⟨h.update key default hk rfl hwf hst ?_, hold⟩
      have hmk : m key ≠ default := hold ▸ hne
      have hc := card_support_update (d := default) m key default
      simp only [ne_eq, hmk, not_false_eq_true, if_true, not_true_eq_false, if_false] at hc
      show t.size - 1 = _
      rw [h.size_eq]
      omega
  · rw [if_pos (by simp)]
    exact hsame ((h.get_eq key hk).symm.trans (by rw [Node.isNull_iff.mp hn, Node.get_null]))

/-! ### `for_each` and `clone_from` -/

theorem forEach_eq (t : RadixTree T) : t.forEach = iterateNode 0 t.depth t.root :=
  iterateNode_ite_null 0 t.depth t.root

/-- What the root stores away from `T{}` lies below the capacity. -/
theorem Represents.lt_capacity_of_get (h : Represents t m) {j : Nat} (hj : j < 64 ^ t.depth)
    (hne : t.root.get t.depth j ≠ default) : j < (capacityAtDepth t.depth).toNat :=
  Nat.lt_of_not_le fun h' => hne (h.get_above j hj h')

/-- **`for_each` calls back with exactly the map's entries.** -/
theorem Represents.mem_forEach (h : Represents t m) (k : UInt64) (v : T) :
    (k, v) ∈ t.forEach ↔ m k ≠ default ∧ v = m k := by
  rw [forEach_eq, mem_iterateNode h.depth_pos h.depth_le (Nat.dvd_zero _)]
  constructor
  · rintro ⟨j, hj, hne, hv, rfl⟩
    rw [UInt64.toNat_zero, Nat.zero_add]
    have hjc := h.lt_capacity_of_get hj hne
    have hj64 : j < UInt64.size := Nat.lt_of_lt_of_le hjc (Nat.le_of_lt (UInt64.toNat_lt _))
    have hkey : UInt64.ofNat j < capacityAtDepth t.depth := by
      rw [UInt64.lt_iff_toNat_lt, UInt64.toNat_ofNat_of_lt' hj64]
      exact hjc
    have hget := h.get_eq _ hkey
    rw [UInt64.toNat_ofNat_of_lt' hj64] at hget
    rw [← hget]
    exact ⟨hne, hv⟩
  · rintro ⟨hne, rfl⟩
    have hk := h.lt_capacity hne
    refine ⟨k.toNat, toNat_lt_pow_of_lt_capacity h.depth_pos h.depth_le hk, ?_, ?_, ?_⟩
    · rwa [h.get_eq k hk]
    · rw [h.get_eq k hk]
    · rw [UInt64.toNat_zero, Nat.zero_add, UInt64.ofNat_toNat]

/-- **`for_each` calls back in increasing key order.** -/
theorem Represents.forEach_sorted (h : Represents t m) :
    t.forEach.Pairwise (fun a b => a.1 < b.1) := by
  rw [forEach_eq]
  refine iterateNode_sorted h.depth_pos h.depth_le (Nat.dvd_zero _) fun j hj hne => ?_
  have := h.lt_capacity_of_get hj hne
  have := UInt64.toNat_lt (capacityAtDepth t.depth)
  rw [UInt64.toNat_zero]
  omega

example : (((({} : RadixTree Nat).insert 300 5).bind (·.insert 7 2)).map (·.forEach)) =
    some [(7, 2), (300, 5)] := by decide

/-- The keys `for_each` calls back with are distinct. -/
theorem Represents.nodup_forEach_keys (h : Represents t m) : (t.forEach.map Prod.fst).Nodup :=
  (List.pairwise_map.mpr h.forEach_sorted).imp fun hab heq => by
    rw [heq] at hab
    exact Nat.lt_irrefl _ (UInt64.lt_iff_toNat_lt.mp hab)

/-- Inserting entries with values other than `T{}` one after another. -/
theorem Represents.foldlM_insert : ∀ {l : List (UInt64 × T)} {t t' : RadixTree T}
    {m : UInt64 → T}, Represents t m → (∀ kv ∈ l, kv.2 ≠ default) →
    l.foldlM (fun acc kv => if kv.2 != default then acc.insert kv.1 kv.2 else some acc) t =
      some t' →
    Represents t' (l.foldl (fun m kv => Function.update m kv.1 kv.2) m)
  | [], _, _, _, h, _, hf => by
    cases hf
    exact h
  | kv :: l, t, t', m, h, hl, hf => by
    rw [List.foldlM_cons, Option.bind_eq_bind, Option.bind_eq_some_iff] at hf
    obtain ⟨t₁, hi, hrest⟩ := hf
    rw [if_pos (by simpa using hl kv List.mem_cons_self)] at hi
    exact (h.insert hi).foldlM_insert (fun kv' hm => hl kv' (List.mem_cons_of_mem _ hm)) hrest

/-- **A successful `clone_from` copies the other tree's map.** -/
theorem Represents.cloneFrom {o t' : RadixTree T} {mo : UInt64 → T} (h : Represents o mo)
    (hc : o.cloneFrom = some t') : Represents t' mo := by
  unfold RadixTree.cloneFrom at hc
  dsimp only at hc
  have h₀ := represents_null (T := T) h.depth_pos h.depth_le
  cases hn : o.root.isNull
  · rw [if_neg (by simp [hn])] at hc
    have hvals : ∀ kv ∈ o.forEach, kv.2 ≠ default := fun kv hm => by
      obtain ⟨hne, hv⟩ := (h.mem_forEach kv.1 kv.2).mp hm
      rw [hv]
      exact hne
    have hr := h₀.foldlM_insert hvals hc
    rwa [foldl_update_eq_of_entries h.nodup_forEach_keys h.mem_forEach] at hr
  · rw [if_pos hn] at hc
    cases hc
    have hempty : mo = fun _ => default := by
      funext k
      by_contra hne
      have hget := h.get_eq k (h.lt_capacity hne)
      rw [Node.isNull_iff.mp hn, Node.get_null] at hget
      exact hne hget.symm
    rw [hempty]
    exact h₀

/-! ### Which operations succeed -/

/-- **`insert` of `UINT64_MAX` always fails.** -/
theorem insert_uint64Max (t : RadixTree T) (value : T) : t.insert uint64Max value = none := by
  simp [RadixTree.insert, growLoop_uint64Max]

omit [Inhabited T] [DecidableEq T] in
@[simp] theorem growDepth_depth (t : RadixTree T) : t.growDepth.depth = t.depth + 1 := rfl

omit [Inhabited T] [DecidableEq T] in
theorem iterate_growDepth_depth (t : RadixTree T) : ∀ n, (growDepth^[n] t).depth = t.depth + n
  | 0 => rfl
  | n + 1 => by
    rw [Function.iterate_succ_apply', growDepth_depth, iterate_growDepth_depth t n, Nat.add_assoc]

/-- **`insert` of `UINT64_MAX` does not return while allocation succeeds.**  After any
number `n` of growths the loop's condition `key >= capacity_at_depth(m_depth)` still
holds, with the depth at `m_depth + n`, past `MAX_DEPTH` as soon as `n` passes
`MAX_DEPTH - m_depth`; the loop is left only by a failed allocation, which is the false
`insert` returns. -/
theorem insert_uint64Max_diverges (t : RadixTree T) (value : T) :
    (∀ n : Nat, (growDepth^[n] t).depth = t.depth + n ∧
      ¬ uint64Max < capacityAtDepth (growDepth^[n] t).depth) ∧
    t.insert uint64Max value = none :=
  ⟨fun n => ⟨iterate_growDepth_depth t n, not_uint64Max_lt_capacity _⟩, insert_uint64Max t value⟩

/-- **Every other key can be inserted.** -/
theorem Represents.insert_isSome_iff (h : Represents t m) (key : UInt64) (value : T) :
    (t.insert key value).isSome ↔ key ≠ uint64Max := by
  constructor
  · rintro hs rfl
    rw [insert_uint64Max] at hs
    cases hs
  · intro hkey
    obtain ⟨t₁, hg⟩ := Option.isSome_iff_exists.mp
      (growLoop_isSome hkey (n := maxDepth - t.depth) (t := t) (by have := h.depth_le; omega))
    simp [RadixTree.insert, hg]

/-- Entries with keys other than `UINT64_MAX` can all be inserted, one after another. -/
theorem Represents.foldlM_insert_isSome : ∀ {l : List (UInt64 × T)} {t : RadixTree T}
    {m : UInt64 → T}, Represents t m → (∀ kv ∈ l, kv.1 ≠ uint64Max) →
    (l.foldlM (fun acc kv => if kv.2 != default then acc.insert kv.1 kv.2 else some acc) t).isSome
  | [], _, _, _, _ => rfl
  | kv :: l, t, m, h, hl => by
    have hl' : ∀ kv' ∈ l, kv'.1 ≠ uint64Max := fun kv' hm => hl kv' (List.mem_cons_of_mem _ hm)
    rw [List.foldlM_cons]
    by_cases hv : (kv.2 != default) = true
    · obtain ⟨t₁, ht₁⟩ := Option.isSome_iff_exists.mp
        ((h.insert_isSome_iff kv.1 kv.2).mpr (hl kv List.mem_cons_self))
      rw [if_pos hv, ht₁]
      exact (h.insert ht₁).foldlM_insert_isSome hl'
    · rw [if_neg hv]
      exact h.foldlM_insert_isSome hl'

/-- **`clone_from` of a tree the operations built always succeeds**: its entries'
keys lie below the capacity, so none is `UINT64_MAX`. -/
theorem Represents.cloneFrom_isSome {o : RadixTree T} {mo : UInt64 → T} (h : Represents o mo) :
    o.cloneFrom.isSome := by
  unfold RadixTree.cloneFrom
  dsimp only
  split
  · rfl
  · refine (represents_null h.depth_pos h.depth_le).foldlM_insert_isSome fun kv hm heq => ?_
    obtain ⟨hne, -⟩ := (h.mem_forEach kv.1 kv.2).mp hm
    exact not_uint64Max_lt_capacity _ (heq ▸ h.lt_capacity hne)

/-! ### Runs -/

/-- The trees the operations build, each with the map it stands for: `RadixTree()`,
and what a successful `insert`, a `remove`, and a successful `clone_from` of another
such tree make, whatever tree they are applied to. -/
inductive Reaches : RadixTree T → (UInt64 → T) → Prop
  | empty : Reaches {} (fun _ => default)
  | insert {t t' : RadixTree T} {m : UInt64 → T} (key : UInt64) (value : T) :
    Reaches t m → t.insert key value = some t' → Reaches t' (Function.update m key value)
  | remove {t : RadixTree T} {m : UInt64 → T} (key : UInt64) :
    Reaches t m → Reaches (t.remove key).1 (Function.update m key default)
  | cloneFrom {o t' : RadixTree T} {mo : UInt64 → T} :
    Reaches o mo → o.cloneFrom = some t' → Reaches t' mo

theorem Reaches.represents (h : Reaches t m) : Represents t m := by
  induction h with
  | empty => exact represents_empty
  | insert _ _ _ hi ih => exact ih.insert hi
  | remove key _ ih => exact (ih.remove key).1
  | cloneFrom _ hc ih => exact ih.cloneFrom hc

theorem radix_tree_refines_map {t : RadixTree T} {m : UInt64 → T} (h : Reaches t m) :
    (∀ k, t.lookup k = m k) ∧ t.size = (support default m).card ∧
      (∀ k v, (k, v) ∈ t.forEach ↔ m k ≠ default ∧ v = m k) ∧
      t.forEach.Pairwise (fun a b => a.1 < b.1) ∧ NodeWF t.depth t.root := by
  have hr := h.represents
  exact ⟨hr.lookup_eq, hr.size_eq, hr.mem_forEach, hr.forEach_sorted, hr.wf⟩

/-- The tree `insert(300, 5)` makes of `RadixTree()`: it has grown to depth 2. -/
def tree300 : RadixTree Nat := (({} : RadixTree Nat).insert 300 5).getD {}

theorem radix_tree_refines_map_tree300 :
    (∀ k, tree300.lookup k = Function.update (fun _ : UInt64 => (default : Nat)) 300 5 k) ∧
      tree300.size = (support default (Function.update (fun _ : UInt64 => (default : Nat)) 300 5)).card ∧
      (∀ k v, (k, v) ∈ tree300.forEach ↔
        Function.update (fun _ : UInt64 => (default : Nat)) 300 5 k ≠ default ∧
          v = Function.update (fun _ : UInt64 => (default : Nat)) 300 5 k) ∧
      tree300.forEach.Pairwise (fun a b => a.1 < b.1) ∧ NodeWF tree300.depth tree300.root :=
  radix_tree_refines_map (Reaches.insert 300 5 Reaches.empty rfl)

end RadixTree

end Wos.Radix
