import WosKernel.RadixTree
import WosKernel.Lib.FirstHit

/-! # The first unset key of a radix tree

`find_first_unset_below(start, limit)` of `util/radix_tree.hpp` answers the least key
of `[start, limit)` whose value is `T{}`, or `UINT64_MAX` if there is none.  Above the
capacity of the tree's depth every key is unset, and so is every key under a missing
subtree.  Below the capacity the search runs down the tree
(`find_first_unset_in_node`): a missing node answers its first key in the window, a
leaf scans its slots between the window's ends, and an interior node tries its
children in slot order from the one holding `start`, skipping those that end before
`start` and stopping at the first that starts at `limit` or past `2^64`.

The answer of a search of `[lo, hi)` is read as a `FirstHit.IsFirst` answer
(`ofResult`: `UINT64_MAX` is none).  A node at level `L` with prefix `p` answers for
its window `[max start p, min limit (p + 64^L))` (`findFirstUnsetInNode_isFirst`); the
leaf loop and the child loop are proved index by index (`leafLoop_isFirst`,
`childLoop_isFirst`), the children's windows splitting the node's.  With
`Represents`, the tree's answer is the least unset key of `[start, limit)`
(`find_first_unset_below_least`); `find_first_unset(start)` is the search up to the
capacity.
-/

namespace Wos.Radix

open FirstHit

/-- `saturating_add`. -/
def saturatingAdd (lhs rhs : UInt64) : UInt64 :=
  if lhs > uint64Max - rhs then uint64Max else lhs + rhs

namespace RadixTree
variable {T : Type} [Inhabited T] [DecidableEq T]

/-- One pass of the leaf loop of `find_first_unset_in_node`,
`for (idx = START_IDX; idx < END_IDX; ++idx)`: `rest` is what the later passes
answer. -/
def leafStep (node : Node T) (pfx endIdx : UInt64) (idx : Fin 64) (rest : UInt64) : UInt64 :=
  if UInt64.ofNat idx.val < endIdx then
    if node.valueAt idx == default then pfx + UInt64.ofNat idx.val else rest
  else uint64Max

/-- One pass of the child loop of `find_first_unset_in_node`, with `search idx
childPrefix` its recursive call on child `idx`: the two `break`s, the `continue` past
a child that ends before `start_key`, and the `return` of a child's answer. -/
def childStep (search : Fin 64 → UInt64 → UInt64) (childCap pfx startKey limit : UInt64)
    (idx : Fin 64) (rest : UInt64) : UInt64 :=
  if UInt64.ofNat idx.val > (uint64Max - pfx) / childCap then uint64Max
  else
    let childPrefix := pfx + UInt64.ofNat idx.val * childCap
    if childPrefix ≥ limit then uint64Max
    else if saturatingAdd childPrefix childCap ≤ startKey then rest
    else
      let found := search idx childPrefix
      if found ≠ uint64Max then found else rest

/-- `find_first_unset_in_node(node, level, prefix, start_key, limit)`. -/
def findFirstUnsetInNode (startKey limit : UInt64) : Nat → Node T → UInt64 → UInt64
  | level, node, pfx =>
    if startKey ≥ limit then uint64Max
    else if node.isNull then
      let candidate := max pfx startKey
      if candidate < limit then candidate else uint64Max
    else match level with
      -- no node lies at level 0: a tree's depth is at least 1
      | 0 => uint64Max
      | 1 =>
        let startIdx : UInt64 := if startKey > pfx then min (startKey - pfx) 64 else 0
        let endIdx : UInt64 := if limit > pfx then min (limit - pfx) 64 else 0
        ((List.finRange 64).drop startIdx.toNat).foldr (leafStep node pfx endIdx) uint64Max
      | level + 2 =>
        let childCap := capacityAtDepth (level + 1)
        if childCap = 0 then uint64Max
        else
          let relStart := if startKey > pfx then startKey - pfx else 0
          let startIdx := min (relStart / childCap) 64
          ((List.finRange 64).drop startIdx.toNat).foldr
            (childStep (fun idx childPrefix =>
                findFirstUnsetInNode startKey limit (level + 1) (node.childAt idx) childPrefix)
              childCap pfx startKey limit) uint64Max

/-- `find_first_unset_below(start_key, limit)`. -/
def findFirstUnsetBelow (t : RadixTree T) (startKey limit : UInt64) : UInt64 :=
  if startKey ≥ limit then uint64Max
  else
    let cap := capacityAtDepth t.depth
    if t.root.isNull || startKey ≥ cap then startKey
    else
      let found := findFirstUnsetInNode startKey (min limit cap) t.depth t.root 0
      if found ≠ uint64Max then found
      else if cap < limit then cap else uint64Max

/-- `find_first_unset(start_key)`: the search up to the capacity. -/
def findFirstUnset (t : RadixTree T) (startKey : UInt64) : UInt64 :=
  t.findFirstUnsetBelow startKey (capacityAtDepth t.depth)

/-! ## Reading a result -/

/-- The answer a search result stands for: `UINT64_MAX` is "none found". -/
def ofResult (r : UInt64) : Option ℕ := if r = uint64Max then none else some r.toNat

omit [Inhabited T] [DecidableEq T] in
@[simp] theorem toNat_uint64Max : uint64Max.toNat = 2 ^ 64 - 1 := rfl

@[simp] theorem ofResult_uint64Max : ofResult uint64Max = none := if_pos rfl

theorem ofResult_of_toNat_lt {r : UInt64} (h : r.toNat < 2 ^ 64 - 1) : ofResult r = some r.toNat :=
  if_neg fun heq => by rw [heq, toNat_uint64Max] at h; exact Nat.lt_irrefl _ h

/-- A key below a limit is a key found, not `UINT64_MAX`. -/
theorem ofResult_of_lt {r l : UInt64} (h : r < l) : ofResult r = some r.toNat :=
  ofResult_of_toNat_lt (by have := l.toNat_lt; have := UInt64.lt_iff_toNat_lt.mp h; omega)

/-- `if (FOUND != UINT64_MAX) return FOUND;`, and otherwise go on: the answers combine
with `Option.or`. -/
theorem ofResult_found (found rest : UInt64) :
    ofResult (if found ≠ uint64Max then found else rest) = (ofResult found).or (ofResult rest) := by
  by_cases h : found = uint64Max
  · rw [if_neg (not_not.mpr h), h, ofResult_uint64Max, Option.none_or]
  · rw [if_pos h, ofResult, if_neg h, Option.some_or]

omit [Inhabited T] [DecidableEq T] in
theorem le_uint64Max (x : UInt64) : x ≤ uint64Max :=
  UInt64.le_iff_toNat_le.mpr (Nat.le_of_lt_succ (UInt64.toNat_lt _))

omit [Inhabited T] [DecidableEq T] in
theorem toNat_saturatingAdd (a b : UInt64) :
    (saturatingAdd a b).toNat = min (a.toNat + b.toNat) (2 ^ 64 - 1) := by
  have ha := a.toNat_lt
  have hb := b.toNat_lt
  have hsub : (uint64Max - b).toNat = 2 ^ 64 - 1 - b.toNat := by
    rw [UInt64.toNat_sub_of_le _ _ (le_uint64Max b), toNat_uint64Max]
  rw [saturatingAdd]
  by_cases h : a > uint64Max - b
  · rw [if_pos h, toNat_uint64Max]
    have := UInt64.lt_iff_toNat_lt.mp h
    omega
  · rw [if_neg h, UInt64.toNat_add]
    have := UInt64.not_lt.mp h
    have := UInt64.le_iff_toNat_le.mp this
    rw [Nat.mod_eq_of_lt (by omega)]
    omega

/-! ## The loops, index by index -/

omit [Inhabited T] [DecidableEq T] in
theorem foldr_drop_finRange_of_lt {β : Type} (f : Fin 64 → β → β) (b : β) {i : ℕ} (h : i < 64) :
    ((List.finRange 64).drop i).foldr f b = f ⟨i, h⟩ (((List.finRange 64).drop (i + 1)).foldr f b) := by
  rw [List.drop_eq_getElem_cons (by rw [List.length_finRange]; exact h), List.foldr_cons,
    List.getElem_finRange]
  rfl

omit [Inhabited T] [DecidableEq T] in
theorem foldr_drop_finRange_sixtyFour {β : Type} (f : Fin 64 → β → β) (b : β) :
    ((List.finRange 64).drop 64).foldr f b = b := by
  rw [List.drop_eq_nil_of_le (by rw [List.length_finRange]), List.foldr_nil]

omit [Inhabited T] [DecidableEq T] in
theorem toNat_ofNat_fin (i : Fin 64) : (UInt64.ofNat i.val).toNat = i.val :=
  UInt64.toNat_ofNat_of_lt' (by have := i.isLt; unfold UInt64.size; omega)

omit [DecidableEq T] in
/-- A leaf stores at the offset of slot `i` the slot's value. -/
theorem get_one_slot (n : Node T) (i : Fin 64) : n.get 1 i.val = n.valueAt i := by
  rw [get_one]
  congr
  exact Fin.ext (by simp [digitFin, RadixDigits.digit, Nat.mod_eq_of_lt i.isLt])

/-- **The leaf loop**, from slot `i` on, answers for the keys from `p + i` up to
`p + END_IDX`. -/
theorem leafLoop_isFirst {n : Node T} {p e : UInt64} (he : e.toNat ≤ 64)
    (hroom : p.toNat + e.toNat ≤ 2 ^ 64 - 1) : ∀ d i, i + d = 64 →
    IsFirst (fun k => n.get 1 (k - p.toNat) = default) (p.toNat + i) (p.toNat + e.toNat)
      (ofResult (((List.finRange 64).drop i).foldr (leafStep n p e) uint64Max))
  | 0, i, hi => by
    rw [show i = 64 by omega, foldr_drop_finRange_sixtyFour, ofResult_uint64Max]
    exact isFirst_of_le (by omega)
  | d + 1, i, hi => by
    have hi64 : i < 64 := by omega
    have hval : n.get 1 (p.toNat + i - p.toNat) = n.valueAt ⟨i, hi64⟩ := by
      rw [Nat.add_sub_cancel_left]
      exact get_one_slot n ⟨i, hi64⟩
    rw [foldr_drop_finRange_of_lt _ _ hi64, leafStep]
    by_cases hie : i < e.toNat
    · have hlt : UInt64.ofNat (⟨i, hi64⟩ : Fin 64).val < e :=
        UInt64.lt_iff_toNat_lt.mpr (by rw [toNat_ofNat_fin]; exact hie)
      rw [if_pos hlt]
      by_cases hv : n.valueAt ⟨i, hi64⟩ = default
      · -- slot `i` is unset: the loop returns `prefix + idx`
        have hsum : (p + UInt64.ofNat (⟨i, hi64⟩ : Fin 64).val).toNat = p.toNat + i := by
          rw [UInt64.toNat_add, toNat_ofNat_fin, Fin.val_mk, Nat.mod_eq_of_lt (by omega)]
        rw [if_pos (beq_iff_eq.mpr hv), ofResult_of_toNat_lt (by rw [hsum]; omega), hsum]
        exact isFirst_lo (by omega) (by rw [hval]; exact hv)
      · rw [if_neg (by simpa using hv)]
        exact (leafLoop_isFirst he hroom d (i + 1) (by omega)).of_succ (by rw [hval]; exact hv)
    · rw [if_neg (fun h => hie (by have := UInt64.lt_iff_toNat_lt.mp h; rwa [toNat_ofNat_fin] at this)),
        ofResult_uint64Max]
      exact isFirst_of_le (by omega)

section ChildLoop
variable {P : ℕ → Prop} {f : Fin 64 → UInt64 → UInt64} {C p s l : UInt64}

omit [Inhabited T] [DecidableEq T] in
/-- **The child loop**, from child `i` on, answers for the window from child `i`'s first
key on, when each child it searches answers for its own window.  A child's window is
that of its keys, `[CHILD_PREFIX, CHILD_PREFIX + CHILD_CAP)`, cut to `[start, limit)`. -/
theorem childLoop_isFirst (hC : 0 < C.toNat) (hsl : s < l)
    (hsearch : ∀ (i : Fin 64) (cp : UInt64), cp.toNat = p.toNat + i.val * C.toNat → cp < l →
      s.toNat < cp.toNat + C.toNat →
      IsFirst P (max s.toNat cp.toNat) (min l.toNat (cp.toNat + C.toNat)) (ofResult (f i cp))) :
    ∀ d i, i + d = 64 →
      IsFirst P (max s.toNat (p.toNat + i * C.toNat)) (min l.toNat (p.toNat + 64 * C.toNat))
        (ofResult (((List.finRange 64).drop i).foldr (childStep f C p s l) uint64Max))
  | 0, i, hi => by
    rw [show i = 64 by omega, foldr_drop_finRange_sixtyFour, ofResult_uint64Max]
    exact isFirst_of_le (by omega)
  | d + 1, i, hi => by
    have hi64 : i < 64 := by omega
    have ih := childLoop_isFirst hC hsl hsearch d (i + 1) (by omega)
    rw [Nat.succ_mul] at ih
    have hp := p.toNat_lt
    have hl := l.toNat_lt
    have hsl' := UInt64.lt_iff_toNat_lt.mp hsl
    have hshare : i * C.toNat + C.toNat ≤ 64 * C.toNat := by
      rw [← Nat.succ_mul]
      exact Nat.mul_le_mul_right _ hi64
    have hroom : (uint64Max - p).toNat = 2 ^ 64 - 1 - p.toNat := by
      rw [UInt64.toNat_sub_of_le _ _ (le_uint64Max p), toNat_uint64Max]
    rw [foldr_drop_finRange_of_lt _ _ hi64]
    dsimp only [childStep]
    by_cases hbrk : UInt64.ofNat (⟨i, hi64⟩ : Fin 64).val > (uint64Max - p) / C
    · -- the child would start past `2^64`: no key is left
      rw [if_pos hbrk, ofResult_uint64Max]
      rw [GT.gt, UInt64.lt_iff_toNat_lt, UInt64.toNat_div, hroom, toNat_ofNat_fin, Fin.val_mk,
        Nat.div_lt_iff_lt_mul hC] at hbrk
      exact isFirst_of_le (by omega)
    rw [if_neg hbrk]
    have hfit : i * C.toNat ≤ 2 ^ 64 - 1 - p.toNat := by
      rw [GT.gt, UInt64.lt_iff_toNat_lt, UInt64.toNat_div, hroom, toNat_ofNat_fin, Fin.val_mk,
        Nat.not_lt, Nat.le_div_iff_mul_le hC] at hbrk
      exact hbrk
    have hcp : (p + UInt64.ofNat (⟨i, hi64⟩ : Fin 64).val * C).toNat = p.toNat + i * C.toNat := by
      rw [UInt64.toNat_add, UInt64.toNat_mul, toNat_ofNat_fin, Fin.val_mk,
        Nat.mod_eq_of_lt (by omega), Nat.mod_eq_of_lt (by omega)]
    by_cases hlim : p + UInt64.ofNat (⟨i, hi64⟩ : Fin 64).val * C ≥ l
    · -- the child starts at `limit` or later
      rw [if_pos hlim, ofResult_uint64Max]
      have := UInt64.le_iff_toNat_le.mp hlim
      rw [hcp] at this
      exact isFirst_of_le (by omega)
    rw [if_neg hlim]
    have hsat := toNat_saturatingAdd (p + UInt64.ofNat (⟨i, hi64⟩ : Fin 64).val * C) C
    rw [hcp] at hsat
    by_cases hskip : saturatingAdd (p + UInt64.ofNat (⟨i, hi64⟩ : Fin 64).val * C) C ≤ s
    · -- the child ends before `start_key`: the window is the next child's
      rw [if_pos hskip]
      have := UInt64.le_iff_toNat_le.mp hskip
      rw [show max s.toNat (p.toNat + i * C.toNat) = max s.toNat (p.toNat + (i * C.toNat + C.toNat))
        by omega]
      exact ih
    rw [if_neg hskip, ofResult_found]
    have hend : s.toNat < p.toNat + i * C.toNat + C.toNat := by
      have := UInt64.not_le.mp hskip
      have := UInt64.lt_iff_toNat_lt.mp this
      omega
    have hchild := hsearch ⟨i, hi64⟩ _ hcp (UInt64.not_le.mp hlim) (by rw [hcp]; exact hend)
    rw [hcp] at hchild
    refine IsFirst.split (m := p.toNat + i * C.toNat + C.toNat) ?_ ?_
    · rwa [show min (min l.toNat (p.toNat + 64 * C.toNat)) (p.toNat + i * C.toNat + C.toNat) =
        min l.toNat (p.toNat + i * C.toNat + C.toNat) by omega,
        show max s.toNat (p.toNat + i * C.toNat) = max s.toNat (p.toNat + i * C.toNat) from rfl]
    · rwa [show max (max s.toNat (p.toNat + i * C.toNat)) (p.toNat + i * C.toNat + C.toNat) =
        max s.toNat (p.toNat + (i * C.toNat + C.toNat)) by omega]

end ChildLoop

/-! ## A node's search -/

section Node
variable {s l : UInt64}

theorem findFirstUnsetInNode_of_le (h : l ≤ s) (level : ℕ) (n : Node T) (p : UInt64) :
    findFirstUnsetInNode s l level n p = uint64Max := by
  rw [findFirstUnsetInNode.eq_def]
  exact if_pos h

/-- A missing node answers the first key of the window, unset like every key under it. -/
theorem findFirstUnsetInNode_null_isFirst (hsl : ¬ l ≤ s) {L : ℕ} {p : UInt64}
    (hs : s.toNat < p.toNat + 64 ^ L) :
    IsFirst (fun k => (Node.null : Node T).get L (k - p.toNat) = default) (max s.toNat p.toNat)
      (min l.toNat (p.toNat + 64 ^ L)) (ofResult (findFirstUnsetInNode s l L (.null : Node T) p)) := by
  have hpow : 0 < 64 ^ L := Nat.pow_pos (by decide)
  have hmax : (max p s).toNat = max s.toNat p.toNat := by
    rw [UInt64.toNat_max]
    omega
  rw [findFirstUnsetInNode.eq_def]
  dsimp only
  rw [if_neg hsl, if_pos (show (Node.null : Node T).isNull = true from rfl)]
  by_cases hc : max p s < l
  · have hcl := UInt64.lt_iff_toNat_lt.mp hc
    rw [hmax] at hcl
    rw [if_pos hc, ofResult_of_lt hc, hmax]
    exact isFirst_lo (by omega) (Node.get_null _ _)
  · have hlc := UInt64.le_iff_toNat_le.mp (UInt64.not_lt.mp hc)
    rw [hmax] at hlc
    rw [if_neg hc, ofResult_uint64Max]
    exact isFirst_of_le (by omega)

/-- A leaf scans its slots from the one of `max start prefix` to the one of
`min limit (prefix + 64)`. -/
theorem findFirstUnsetInNode_leaf_isFirst (hsl : ¬ l ≤ s) {n : Node T} (hn : n.isNull = false)
    {p : UInt64} (hs : s.toNat < p.toNat + 64) :
    IsFirst (fun k => n.get 1 (k - p.toNat) = default) (max s.toNat p.toNat)
      (min l.toNat (p.toNat + 64)) (ofResult (findFirstUnsetInNode s l 1 n p)) := by
  have hl := l.toNat_lt
  have hsl' := UInt64.lt_iff_toNat_lt.mp (UInt64.not_le.mp hsl)
  rw [findFirstUnsetInNode, if_neg hsl, if_neg (by rw [hn]; decide)]
  dsimp only
  -- `START_IDX` and `END_IDX`, the offsets of the window's ends
  have hidx : ∀ a : UInt64, p < a →
      (min (a - p) 64 : UInt64).toNat = min (a.toNat - p.toNat) 64 := fun a ha => by
    rw [UInt64.toNat_min, UInt64.toNat_sub_of_le _ _ (UInt64.le_of_lt ha)]
    rfl
  have hstart : p.toNat + (if s > p then min (s - p) 64 else (0 : UInt64)).toNat =
      max s.toNat p.toNat := by
    by_cases hps : p < s
    · rw [if_pos hps, hidx s hps]
      have := UInt64.lt_iff_toNat_lt.mp hps
      omega
    · rw [if_neg hps]
      have := UInt64.le_iff_toNat_le.mp (UInt64.not_lt.mp hps)
      simp only [UInt64.toNat_zero]
      omega
  by_cases hpl : p < l
  · have hpl' := UInt64.lt_iff_toNat_lt.mp hpl
    have hend : (if l > p then min (l - p) 64 else (0 : UInt64)).toNat =
        min (l.toNat - p.toNat) 64 := by
      rw [if_pos hpl, hidx l hpl]
    have hloop := leafLoop_isFirst (n := n) (p := p) (hend ▸ Nat.min_le_right _ _)
      (by rw [hend]; omega) _ _ (Nat.add_sub_of_le (by omega : (if s > p then
        min (s - p) 64 else (0 : UInt64)).toNat ≤ 64))
    rw [hstart, hend, show p.toNat + min (l.toNat - p.toNat) 64 = min l.toNat (p.toNat + 64)
      by omega] at hloop
    exact hloop
  · have hlp := UInt64.le_iff_toNat_le.mp (UInt64.not_lt.mp hpl)
    have hloop := leafLoop_isFirst (n := n) (p := p) (e := 0) (by decide)
      (by rw [UInt64.toNat_zero, Nat.add_zero]; exact Nat.le_of_lt_succ p.toNat_lt) _ _
      (Nat.add_sub_of_le (by omega : (if s > p then
        min (s - p) 64 else (0 : UInt64)).toNat ≤ 64))
    rw [hstart] at hloop
    rw [if_neg hpl, hloop.eq_none_of_le (by rw [UInt64.toNat_zero]; omega)]
    exact isFirst_of_le (by omega)

/-- An interior node tries its children from the one holding `max start prefix` on, each
answering for its share of the window. -/
theorem findFirstUnsetInNode_interior_isFirst (hsl : ¬ l ≤ s) {L : ℕ} {n : Node T}
    (hn : n.isNull = false) (hL : L + 2 ≤ maxDepth) {p : UInt64}
    (hs : s.toNat < p.toNat + 64 ^ (L + 2))
    (hroom : p.toNat + 64 ^ (L + 2) ≤ 2 ^ 64 ∨ (L + 2 = maxDepth ∧ p = 0))
    (ih : ∀ (c : Node T) (cp : UInt64), s.toNat < cp.toNat + 64 ^ (L + 1) →
      cp.toNat + 64 ^ (L + 1) ≤ 2 ^ 64 →
      IsFirst (fun k => c.get (L + 1) (k - cp.toNat) = default) (max s.toNat cp.toNat)
        (min l.toNat (cp.toNat + 64 ^ (L + 1))) (ofResult (findFirstUnsetInNode s l (L + 1) c cp))) :
    IsFirst (fun k => n.get (L + 2) (k - p.toNat) = default) (max s.toNat p.toNat)
      (min l.toNat (p.toNat + 64 ^ (L + 2))) (ofResult (findFirstUnsetInNode s l (L + 2) n p)) := by
  have hC : (capacityAtDepth (L + 1)).toNat = 64 ^ (L + 1) :=
    capacity_toNat (by omega) (by rw [maxDepth] at hL; omega)
  have hCpos : 0 < 64 ^ (L + 1) := Nat.pow_pos (by decide)
  have hC0 : capacityAtDepth (L + 1) ≠ 0 := fun h => by
    rw [h, UInt64.toNat_zero] at hC
    omega
  have hpow : 64 ^ (L + 2) = 64 * 64 ^ (L + 1) := by rw [Nat.pow_succ, Nat.mul_comm]
  rw [findFirstUnsetInNode.eq_def]
  dsimp only
  rw [if_neg hsl, if_neg (by rw [hn]; decide), if_neg hC0]
  have hrel : (if s > p then s - p else (0 : UInt64)).toNat = max s.toNat p.toNat - p.toNat := by
    by_cases hps : p < s
    · have := UInt64.lt_iff_toNat_lt.mp hps
      rw [if_pos hps, UInt64.toNat_sub_of_le _ _ (UInt64.le_of_lt hps)]
      omega
    · have := UInt64.le_iff_toNat_le.mp (UInt64.not_lt.mp hps)
      rw [if_neg hps, UInt64.toNat_zero]
      omega
  have hfirst : (max s.toNat p.toNat - p.toNat) / 64 ^ (L + 1) < 64 := by
    rw [Nat.div_lt_iff_lt_mul hCpos]
    omega
  have hstart : (min ((if s > p then s - p else 0) / capacityAtDepth (L + 1)) 64 : UInt64).toNat =
      (max s.toNat p.toNat - p.toNat) / 64 ^ (L + 1) := by
    rw [UInt64.toNat_min, UInt64.toNat_div, hrel, hC]
    exact Nat.min_eq_left (Nat.le_of_lt hfirst)
  have hbelow : (max s.toNat p.toNat - p.toNat) / 64 ^ (L + 1) * 64 ^ (L + 1) ≤
      max s.toNat p.toNat - p.toNat := Nat.div_mul_le_self _ _
  have hloop := childLoop_isFirst (P := fun k => n.get (L + 2) (k - p.toNat) = default)
    (f := fun idx cp => findFirstUnsetInNode s l (L + 1) (n.childAt idx) cp) (p := p)
    (by rw [hC]; exact hCpos) (UInt64.not_le.mp hsl) ?child _ _
    (Nat.add_sub_of_le (hstart ▸ Nat.le_of_lt hfirst))
  · have hlo : max s.toNat (p.toNat + (min ((if s > p then s - p else 0) /
        capacityAtDepth (L + 1)) 64 : UInt64).toNat * (capacityAtDepth (L + 1)).toNat) =
        max s.toNat p.toNat := by
      rw [hstart, hC]
      omega
    have hhi : p.toNat + 64 * (capacityAtDepth (L + 1)).toNat = p.toNat + 64 ^ (L + 2) := by
      rw [hC, hpow]
    rw [hlo, hhi] at hloop
    exact hloop
  case child =>
    intro i cp hcp hcpl hsC
    rw [hC] at hcp hsC ⊢
    have hcpl' := UInt64.lt_iff_toNat_lt.mp hcpl
    have hl := l.toNat_lt
    -- the child's keys fit in 64 bits: below the node's, or below `2^64` at the root of
    -- a tree of depth 11
    have hcroom : cp.toNat + 64 ^ (L + 1) ≤ 2 ^ 64 := by
      rcases hroom with hroom | ⟨h11, rfl⟩
      · have hshare : i.val * 64 ^ (L + 1) + 64 ^ (L + 1) ≤ 64 * 64 ^ (L + 1) := by
          rw [← Nat.succ_mul]
          exact Nat.mul_le_mul_right _ i.isLt
        omega
      · obtain rfl : L = 9 := by rw [maxDepth] at h11; omega
        have h60 : (64 : ℕ) ^ (9 + 1) = 1152921504606846976 := by norm_num
        rw [UInt64.toNat_zero, Nat.zero_add, h60] at hcp
        rw [h60]
        omega
    refine (ih (n.childAt i) cp hsC hcroom).congr fun k hk hkhi => ?_
    have hj : k - cp.toNat < 64 ^ (L + 1) := by omega
    rw [show k - p.toNat = i.val * 64 ^ (L + 1) + (k - cp.toNat) by omega,
      get_interior_share n L i hj]

/-- **A node's search answers for its window**: a node at level `L` with prefix `p`
answers the first unset key of `[max start p, min limit (p + 64^L))`, when `start` lies
below the node's keys' end and those keys fit in 64 bits, or the node is the root of a
tree of depth 11.  The induction is on the level; the children's searches are the
induction hypothesis. -/
theorem findFirstUnsetInNode_isFirst (s l : UInt64) (L : ℕ) : ∀ (n : Node T) (p : UInt64),
    1 ≤ L → L ≤ maxDepth → s.toNat < p.toNat + 64 ^ L →
    (p.toNat + 64 ^ L ≤ 2 ^ 64 ∨ (L = maxDepth ∧ p = 0)) →
    IsFirst (fun k => n.get L (k - p.toNat) = default) (max s.toNat p.toNat)
      (min l.toNat (p.toNat + 64 ^ L)) (ofResult (findFirstUnsetInNode s l L n p)) := by
  induction L with
  | zero => intro _ _ h; exact absurd h (by decide)
  | succ L ih =>
    intro n p h1 h2 hs hroom
    by_cases hsl : l ≤ s
    · rw [findFirstUnsetInNode_of_le hsl, ofResult_uint64Max]
      exact isFirst_of_le (by have := UInt64.le_iff_toNat_le.mp hsl; omega)
    cases hn : n.isNull
    · cases L with
      | zero => exact findFirstUnsetInNode_leaf_isFirst hsl hn hs
      | succ L =>
        exact findFirstUnsetInNode_interior_isFirst hsl hn h2 hs hroom
          fun c cp hcs hcroom => ih c cp (by omega) (by omega) hcs (Or.inl hcroom)
    · rw [Node.isNull_iff.mp hn]
      exact findFirstUnsetInNode_null_isFirst hsl hs

end Node

/-! ## The tree's search -/

section Tree
variable {t : RadixTree T} {m : UInt64 → T}

omit [Inhabited T] [DecidableEq T] in
/-- An answer over the numbers below `2^64`, read back as keys. -/
theorem ofResult_isFirst_keys {f : UInt64 → Prop} {s l r : UInt64}
    (hf : IsFirst (fun k => f (UInt64.ofNat k)) s.toNat l.toNat (ofResult r)) :
    (s ≤ r ∧ r < l ∧ f r ∧ ∀ k, s ≤ k → k < r → ¬ f k) ∨
      (r = uint64Max ∧ ∀ k, s ≤ k → k < l → ¬ f k) := by
  by_cases hr : r = uint64Max
  · rw [hr, ofResult_uint64Max] at hf
    refine Or.inr ⟨hr, fun k hsk hkl => ?_⟩
    have hk : ¬ f (UInt64.ofNat k.toNat) :=
      hf k.toNat (UInt64.le_iff_toNat_le.mp hsk) (UInt64.lt_iff_toNat_lt.mp hkl)
    rwa [UInt64.ofNat_toNat] at hk
  · rw [ofResult, if_neg hr] at hf
    obtain ⟨hsr, hrl, hfr, hmin⟩ := hf
    rw [UInt64.ofNat_toNat] at hfr
    refine Or.inl ⟨UInt64.le_iff_toNat_le.mpr hsr, UInt64.lt_iff_toNat_lt.mpr hrl, hfr,
      fun k hsk hkr => ?_⟩
    have hk : ¬ f (UInt64.ofNat k.toNat) :=
      hmin k.toNat (UInt64.le_iff_toNat_le.mp hsk) (UInt64.lt_iff_toNat_lt.mp hkr)
    rwa [UInt64.ofNat_toNat] at hk

/-- **The tree's search answers for `[start, limit)`**: besides what the root's search
answers, every key of a tree without nodes and every key from the capacity on is
unset. -/
theorem Represents.findFirstUnsetBelow_isFirst (h : Represents t m) (s l : UInt64) :
    IsFirst (fun k => t.lookup (UInt64.ofNat k) = default) s.toNat l.toNat
      (ofResult (t.findFirstUnsetBelow s l)) := by
  have hl := l.toNat_lt
  have hkey : ∀ k : ℕ, k < l.toNat → (UInt64.ofNat k).toNat = k := fun k hk =>
    UInt64.toNat_ofNat_of_lt' (by unfold UInt64.size; omega)
  rw [findFirstUnsetBelow]
  by_cases hsl : l ≤ s
  · rw [if_pos hsl, ofResult_uint64Max]
    exact isFirst_of_le (UInt64.le_iff_toNat_le.mp hsl)
  rw [if_neg hsl]
  dsimp only
  have hsl' := UInt64.lt_iff_toNat_lt.mp (UInt64.not_le.mp hsl)
  by_cases hshort : t.root.isNull = true ∨ capacityAtDepth t.depth ≤ s
  · have hs : t.lookup s = default := by
      rw [h.lookup_eq]
      rcases hshort with hroot | hcap
      · by_cases hsc : s < capacityAtDepth t.depth
        · rw [← h.get_eq s hsc, Node.isNull_iff.mp hroot, Node.get_null]
        · exact h.map_above s (UInt64.not_lt.mp hsc)
      · exact h.map_above s hcap
    rw [if_pos (by simpa using hshort), ofResult_of_lt (UInt64.not_le.mp hsl)]
    exact isFirst_lo hsl' (by rw [UInt64.ofNat_toNat]; exact hs)
  rw [if_neg (by simpa using hshort)]
  obtain ⟨hroot, hcap⟩ := not_or.mp hshort
  have hc := UInt64.lt_iff_toNat_lt.mp (UInt64.not_le.mp hcap)
  have hcapPow := capacity_le_pow h.depth_pos h.depth_le
  have hroom : 0 + 64 ^ t.depth ≤ 2 ^ 64 ∨ (t.depth = maxDepth ∧ (0 : UInt64) = 0) := by
    rcases Nat.lt_or_ge t.depth 11 with hd | hd
    · left
      calc 0 + 64 ^ t.depth = 64 ^ t.depth := Nat.zero_add _
        _ ≤ 64 ^ 10 := Nat.pow_le_pow_right (by decide) (by omega)
        _ ≤ 2 ^ 64 := by decide
    · exact Or.inr ⟨by have := h.depth_le; rw [maxDepth] at this ⊢; omega, rfl⟩
  have hnode := findFirstUnsetInNode_isFirst s (min l (capacityAtDepth t.depth)) t.depth t.root 0
    h.depth_pos h.depth_le (by rw [UInt64.toNat_zero]; omega) (by rwa [UInt64.toNat_zero])
  rw [UInt64.toNat_zero, Nat.zero_add, Nat.max_eq_left (Nat.zero_le _), UInt64.toNat_min,
    show min (min l.toNat (capacityAtDepth t.depth).toNat) (64 ^ t.depth) =
      min l.toNat (capacityAtDepth t.depth).toNat by omega] at hnode
  have hfound := hnode.congr (Q := fun k => t.lookup (UInt64.ofNat k) = default)
    fun k _ hkhi => by
      have hkc : UInt64.ofNat k < capacityAtDepth t.depth :=
        UInt64.lt_iff_toNat_lt.mpr (by rw [hkey k (by omega)]; omega)
      rw [Nat.sub_zero, h.lookup_eq, ← h.get_eq _ hkc, hkey k (by omega)]
  rw [ofResult_found]
  refine IsFirst.split (m := min l.toNat (capacityAtDepth t.depth).toNat) ?_ ?_
  · rwa [show min l.toNat (min l.toNat (capacityAtDepth t.depth).toNat) =
      min l.toNat (capacityAtDepth t.depth).toNat by omega]
  · by_cases hcl : capacityAtDepth t.depth < l
    · have hcl' := UInt64.lt_iff_toNat_lt.mp hcl
      rw [if_pos hcl, ofResult_of_lt hcl, show max s.toNat (min l.toNat
        (capacityAtDepth t.depth).toNat) = (capacityAtDepth t.depth).toNat by omega]
      refine isFirst_lo hcl' ?_
      rw [UInt64.ofNat_toNat, h.lookup_eq]
      exact h.map_above _ (UInt64.le_iff_toNat_le.mpr (Nat.le_refl _))
    · have hlc := UInt64.le_iff_toNat_le.mp (UInt64.not_lt.mp hcl)
      rw [if_neg hcl, ofResult_uint64Max]
      exact isFirst_of_le (by omega)

/-- **`find_first_unset_below(start, limit)` is the least unset key of `[start, limit)`**,
or `UINT64_MAX` when every key there is set, in every tree the operations build;
`find_first_unset(start)` is the case of `limit` the capacity. -/
theorem find_first_unset_below_least (h : Reaches t m) (s l : UInt64) :
    let r := t.findFirstUnsetBelow s l
    (s ≤ r ∧ r < l ∧ t.lookup r = default ∧ ∀ k, s ≤ k → k < r → t.lookup k ≠ default) ∨
      (r = uint64Max ∧ ∀ k, s ≤ k → k < l → t.lookup k ≠ default) :=
  ofResult_isFirst_keys (f := fun k => t.lookup k = default)
    (h.represents.findFirstUnsetBelow_isFirst s l)

/-- In the tree `insert(300, 5)` makes, the search of `[300, 310)` answers a key. -/
theorem find_first_unset_below_least_tree300 :
    Reaches tree300 (Function.update (fun _ : UInt64 => (default : Nat)) 300 5) ∧
      let r := tree300.findFirstUnsetBelow 300 310
      (300 ≤ r ∧ r < 310 ∧ tree300.lookup r = default ∧
          ∀ k, 300 ≤ k → k < r → tree300.lookup k ≠ default) ∨
        (r = uint64Max ∧ ∀ k, 300 ≤ k → k < 310 → tree300.lookup k ≠ default) := by
  have hr : Reaches tree300 (Function.update (fun _ : UInt64 => (default : Nat)) 300 5) :=
    Reaches.insert 300 5 Reaches.empty rfl
  exact ⟨hr, find_first_unset_below_least hr 300 310⟩

example : tree300.findFirstUnset 300 = 301 := by decide

end Tree

end RadixTree

end Wos.Radix
