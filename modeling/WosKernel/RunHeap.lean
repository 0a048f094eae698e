import WosKernel.Lib.ArrayHeap

/-! # The scheduler's run heap (`platform/sched/run_heap.cpp`)

`RunHeap` is a fixed-capacity array min-heap of task pointers keyed on `vdeadline`; each task
keeps its position in `heap_index`, so `remove` and `update` find it without a scan.  The model
keeps the heap together with the fields of the tasks behind its pointers (`RunHeap.tasks`),
since the heap's methods write `heap_index` through them.  Task pointers are a type `τ` with
decidable equality; the panics on a corrupted size or an index past the capacity are `none`.

* `HeapInv`: the entries are distinct, each entry's `heap_index` is its position, and the
  array is a heap (`ArrayHeap.Ordered`).  Every call keeps it without a panic
  (`Op.apply_heapInv`), so it holds after every sequence of calls (`run_heapInv`).
* `insert_spec`, `remove_spec`, `contains_iff`, `peekMin_spec`: the heap as a set of tasks.
* `pickBestEligible_spec`: the bounded scan of `pick_best_eligible` is exact.  It prunes below
  eligible entries, which is sound in a heap (`ArrayHeap.Ordered.anc_le`), and its guard
  `stack_size < 30` never fires, since its stack holds at most one pending entry per level
  (`StackDepth.guard`) and a heap of `PER_CPU_HEAP_CAP` entries has 13 levels.  Each pass
  visits a position, so `size + 1` passes are enough (`pending`).
-/

namespace Wos.Sched

open ArrayHeap

/-- `PER_CPU_HEAP_CAP`. -/
def perCpuHeapCap : Nat := 8192

/-- The fields of a task that the heap reads and writes. -/
structure TaskFields where
  /-- `heap_index`: the task's position in its heap, negative outside any heap. -/
  heapIndex : Int32
  /-- `vruntime`, against which `pick_best_eligible` measures eligibility. -/
  vruntime : Int64
  /-- `vdeadline`, the heap's key. -/
  vdeadline : Int64

/-- A `RunHeap` with the tasks its pointers reach. -/
structure RunHeap (τ : Type) where
  /-- `entries`; the slots from `size` on hold stale pointers. -/
  entries : Nat → τ
  /-- `size`. -/
  size : Nat
  /-- The fields of the task behind each pointer. -/
  tasks : τ → TaskFields

namespace RunHeap

variable {τ : Type} [DecidableEq τ]

/-- The key of the entry at position `i`. -/
def key (h : RunHeap τ) (i : Nat) : Int64 := (h.tasks (h.entries i)).vdeadline

/-- `t->heap_index = i`. -/
def setHeapIndex (tasks : τ → TaskFields) (t : τ) (i : Int32) : τ → TaskFields :=
  Function.update tasks t { tasks t with heapIndex := i }

/-- `swap_entries`; `none` is its panic on an index past the capacity. -/
def swapEntries (h : RunHeap τ) (i j : Nat) : Option (RunHeap τ) :=
  if i ≥ perCpuHeapCap ∨ j ≥ perCpuHeapCap then none
  else
    let tmp := h.entries i
    let entries := Function.update h.entries i (h.entries j)
    let entries := Function.update entries j tmp
    let tasks := setHeapIndex h.tasks (entries i) (Int32.ofNat i)
    let tasks := setHeapIndex tasks (entries j) (Int32.ofNat j)
    some { h with entries := entries, tasks := tasks }

/-- The loop of `sift_up`, run with a fuel of at least `idx` iterations. -/
def siftUpLoop : Nat → RunHeap τ → Nat → Option (RunHeap τ)
  | 0, h, _ => some h
  | fuel + 1, h, idx =>
    if idx > 0 then
      let parentIdx := (idx - 1) / 2
      if h.key idx < h.key parentIdx then
        (h.swapEntries idx parentIdx).bind (fun h' => siftUpLoop fuel h' parentIdx)
      else some h
    else some h

/-- `sift_up`; `none` is its panic on a corrupted size. -/
def siftUp (h : RunHeap τ) (idx : Nat) : Option (RunHeap τ) :=
  if h.size > perCpuHeapCap then none else siftUpLoop idx h idx

/-- One comparison of `sift_down`: the child `c`, when it is in the heap, replaces `smallest`
if its key is smaller; `none` is the panic on a child past the capacity. -/
def siftDownPick (h : RunHeap τ) (c smallest : Nat) : Option Nat :=
  if c < h.size then
    if c ≥ perCpuHeapCap then none
    else if h.key c < h.key smallest then some c else some smallest
  else some smallest

/-- The loop of `sift_down`, run with a fuel of at least `size - idx` iterations. -/
def siftDownLoop : Nat → RunHeap τ → Nat → Option (RunHeap τ)
  | 0, h, _ => some h
  | fuel + 1, h, idx => do
    let smallest ← h.siftDownPick (2 * idx + 1) idx
    let smallest ← h.siftDownPick (2 * idx + 2) smallest
    if smallest ≠ idx then
      let h' ← h.swapEntries idx smallest
      siftDownLoop fuel h' smallest
    else some h

/-- `sift_down`; `none` is its panic on a corrupted size. -/
def siftDown (h : RunHeap τ) (idx : Nat) : Option (RunHeap τ) :=
  if h.size > perCpuHeapCap then none else siftDownLoop h.size h idx

/-- `init`. -/
def init (h : RunHeap τ) : RunHeap τ := { h with size := 0 }

/-- `insert`, with its answer. -/
def insert (h : RunHeap τ) (t : τ) : Option (RunHeap τ × Bool) :=
  if h.size ≥ perCpuHeapCap then some (h, false)
  else if (h.tasks t).heapIndex ≥ 0 then some (h, false)
  else
    let idx := h.size
    let h' : RunHeap τ :=
      { entries := Function.update h.entries idx t
        size := h.size + 1
        tasks := setHeapIndex h.tasks t (Int32.ofNat idx) }
    (h'.siftUp idx).map (·, true)

/-- The test that `remove`, `update` and `contains` start with: the position `heap_index`
names, when it is one of the heap's. -/
def indexOf (h : RunHeap τ) (t : τ) : Option Nat :=
  let hi := (h.tasks t).heapIndex
  if hi < 0 ∨ hi.toInt ≥ h.size then none else some hi.toInt.toNat

/-- `remove`, with its answer. -/
def remove (h : RunHeap τ) (t : τ) : Option (RunHeap τ × Bool) :=
  match h.indexOf t with
  | none => some (h, false)
  | some idx =>
    if h.entries idx ≠ t then some (h, false)
    else
      let tasks := setHeapIndex h.tasks t (-1)
      let size := h.size - 1
      if idx = size then some ({ h with tasks := tasks, size := size }, true)
      else
        -- the last entry fills the gap, then sifts up or down
        let entries := Function.update h.entries idx (h.entries size)
        let tasks := setHeapIndex tasks (entries idx) (Int32.ofNat idx)
        let h' : RunHeap τ := { entries := entries, size := size, tasks := tasks }
        (h'.siftUp idx).bind (fun h'' => (h''.siftDown idx).map (·, true))

/-- `update`. -/
def update (h : RunHeap τ) (t : τ) : Option (RunHeap τ) :=
  match h.indexOf t with
  | none => some h
  | some idx => (h.siftUp idx).bind (·.siftDown idx)

/-- `peek_min`. -/
def peekMin (h : RunHeap τ) : Option τ := if h.size = 0 then none else some (h.entries 0)

/-- `contains`. -/
def contains (h : RunHeap τ) (t : τ) : Bool :=
  match h.indexOf t with
  | none => false
  | some idx => h.entries idx == t

/-- The scan of `pick_best_eligible`: the stack with its top first, the best eligible task
found so far and its deadline. -/
def pickLoop (h : RunHeap τ) (avg : Int64) : Nat → List Nat → Option τ → Int64 → Option τ
  | 0, _, best, _ => best
  | _ + 1, [], best, _ => best
  | fuel + 1, idx :: stack, best, bestDeadline =>
    if idx ≥ h.size then pickLoop h avg fuel stack best bestDeadline
    else
      let t := h.entries idx
      let lag := avg - (h.tasks t).vruntime
      if lag ≥ 0 then
        if best.isNone || (h.tasks t).vdeadline < bestDeadline then
          pickLoop h avg fuel stack (some t) (h.tasks t).vdeadline
        else pickLoop h avg fuel stack best bestDeadline
      else if stack.length < 30 then
        -- the children of an entry that is not eligible: left pushed first, right on top
        let stack := if 2 * idx + 1 < h.size then (2 * idx + 1) :: stack else stack
        let stack := if 2 * idx + 2 < h.size then (2 * idx + 2) :: stack else stack
        pickLoop h avg fuel stack best bestDeadline
      else pickLoop h avg fuel stack best bestDeadline

/-- `pick_best_eligible`: the scan from the root, or the root when nothing eligible was
found. -/
def pickBestEligible (h : RunHeap τ) (avg : Int64) : Option τ :=
  if h.size = 0 then none
  else
    match h.pickLoop avg (h.size + 1) [0] none 0 with
    | none => some (h.entries 0)
    | some best => some best

/-! ## Fields and swaps -/

/-- The key of a task, as an integer. -/
def deadline (h : RunHeap τ) (t : τ) : Int := (h.tasks t).vdeadline.toInt

/-- `t` is in the heap. -/
def Mem (h : RunHeap τ) (t : τ) : Prop := ∃ i, i < h.size ∧ h.entries i = t

section SetHeapIndex

variable (tasks : τ → TaskFields) (t : τ) (i : Int32)

@[simp] theorem setHeapIndex_vdeadline (u : τ) :
    (setHeapIndex tasks t i u).vdeadline = (tasks u).vdeadline := by
  by_cases hu : u = t
  · subst hu; simp [setHeapIndex]
  · simp [setHeapIndex, Function.update_of_ne hu]

@[simp] theorem setHeapIndex_vruntime (u : τ) :
    (setHeapIndex tasks t i u).vruntime = (tasks u).vruntime := by
  by_cases hu : u = t
  · subst hu; simp [setHeapIndex]
  · simp [setHeapIndex, Function.update_of_ne hu]

@[simp] theorem setHeapIndex_heapIndex_self : (setHeapIndex tasks t i t).heapIndex = i := by
  simp [setHeapIndex]

theorem setHeapIndex_heapIndex_of_ne {u : τ} (hu : u ≠ t) :
    (setHeapIndex tasks t i u).heapIndex = (tasks u).heapIndex := by
  simp [setHeapIndex, Function.update_of_ne hu]

end SetHeapIndex

/-- The positions and pointers of the heap, which the sifts keep. -/
structure Layout (h : RunHeap τ) : Prop where
  size_le : h.size ≤ perCpuHeapCap
  distinct : ∀ i j, i < h.size → j < h.size → h.entries i = h.entries j → i = j
  index : ∀ i, i < h.size → (h.tasks (h.entries i)).heapIndex = Int32.ofNat i

/-- **The invariant of the heap**: its layout, and the heap order on `vdeadline`. -/
structure HeapInv (h : RunHeap τ) : Prop extends Layout h where
  ordered : Ordered h.deadline h.entries h.size

/-- What a sift leaves alone: the size, the tasks' times, the set of members, and the
`heap_index` of every other task. -/
structure Resift (h h' : RunHeap τ) : Prop where
  size_eq : h'.size = h.size
  vdeadline_eq : ∀ u, (h'.tasks u).vdeadline = (h.tasks u).vdeadline
  vruntime_eq : ∀ u, (h'.tasks u).vruntime = (h.tasks u).vruntime
  mem_iff : ∀ u, Mem h' u ↔ Mem h u
  heapIndex_eq : ∀ u, ¬ Mem h u → (h'.tasks u).heapIndex = (h.tasks u).heapIndex

omit [DecidableEq τ] in
theorem Resift.refl (h : RunHeap τ) : Resift h h :=
  ⟨rfl, fun _ => rfl, fun _ => rfl, fun _ => Iff.rfl, fun _ _ => rfl⟩

omit [DecidableEq τ] in
theorem Resift.trans {h₁ h₂ h₃ : RunHeap τ} (a : Resift h₁ h₂) (b : Resift h₂ h₃) :
    Resift h₁ h₃ where
  size_eq := b.size_eq.trans a.size_eq
  vdeadline_eq u := (b.vdeadline_eq u).trans (a.vdeadline_eq u)
  vruntime_eq u := (b.vruntime_eq u).trans (a.vruntime_eq u)
  mem_iff u := (b.mem_iff u).trans (a.mem_iff u)
  heapIndex_eq u hu := (b.heapIndex_eq u (fun hm => hu ((a.mem_iff u).mp hm))).trans
    (a.heapIndex_eq u hu)

omit [DecidableEq τ] in
theorem Resift.deadline_eq {h h' : RunHeap τ} (r : Resift h h') : h'.deadline = h.deadline := by
  funext u
  simp [deadline, r.vdeadline_eq u]

/-- **One swap** of two positions in the heap exchanges their entries, writes their new
positions, and keeps the layout. -/
theorem swapEntries_spec {h : RunHeap τ} (hl : Layout h) {i j : Nat} (hi : i < h.size)
    (hj : j < h.size) :
    ∃ h', h.swapEntries i j = some h' ∧ h'.entries = h.entries ∘ Equiv.swap i j ∧
      Layout h' ∧ Resift h h' := by
  have hcap : ¬ (i ≥ perCpuHeapCap ∨ j ≥ perCpuHeapCap) := by
    have := hl.size_le; omega
  have hswap : Function.update (Function.update h.entries i (h.entries j)) j (h.entries i) =
      h.entries ∘ Equiv.swap i j := by
    funext k
    by_cases hkj : k = j
    · subst hkj; simp
    · by_cases hki : k = i
      · subst hki; simp [Function.update_of_ne hkj]
      · simp [Function.update_of_ne hkj, Function.update_of_ne hki,
          Equiv.swap_apply_of_ne_of_ne hki hkj]
  refine ⟨_, by rw [swapEntries, if_neg hcap], hswap, ?_, ?_⟩
  all_goals rw [hswap]
  · constructor
    · exact hl.size_le
    · intro k l hk hl' he
      exact (Equiv.swap i j).injective (hl.distinct _ _ (swap_lt hi hj hk) (swap_lt hi hj hl') he)
    · intro k hk
      by_cases hkj : k = j
      · subst hkj
        exact setHeapIndex_heapIndex_self _ _ _
      · have hne : (h.entries ∘ Equiv.swap i j) k ≠ (h.entries ∘ Equiv.swap i j) j := fun he =>
          hkj ((Equiv.swap i j).injective (hl.distinct _ _ (swap_lt hi hj hk) (swap_lt hi hj hj) he))
        rw [setHeapIndex_heapIndex_of_ne _ _ _ hne]
        by_cases hki : k = i
        · subst hki
          exact setHeapIndex_heapIndex_self _ _ _
        · have hne' : (h.entries ∘ Equiv.swap i j) k ≠ (h.entries ∘ Equiv.swap i j) i :=
            fun he => hki ((Equiv.swap i j).injective
              (hl.distinct _ _ (swap_lt hi hj hk) (swap_lt hi hj hi) he))
          rw [setHeapIndex_heapIndex_of_ne _ _ _ hne', Function.comp_apply,
            Equiv.swap_apply_of_ne_of_ne hki hkj]
          exact hl.index k hk
  · constructor
    · rfl
    · intro u; simp
    · intro u; simp
    · intro u
      constructor
      · rintro ⟨k, hk, rfl⟩
        exact ⟨_, swap_lt hi hj hk, rfl⟩
      · rintro ⟨k, hk, rfl⟩
        exact ⟨Equiv.swap i j k, swap_lt hi hj hk, by simp⟩
    · intro u hu
      have hmem : ∀ k, k < h.size → (h.entries ∘ Equiv.swap i j) k ≠ u := fun k hk he =>
        hu ⟨_, swap_lt hi hj hk, he⟩
      rw [setHeapIndex_heapIndex_of_ne _ _ _ (hmem j hj).symm,
        setHeapIndex_heapIndex_of_ne _ _ _ (hmem i hi).symm]

omit [DecidableEq τ] in
theorem key_lt_iff (h : RunHeap τ) (i j : Nat) :
    h.key i < h.key j ↔ h.deadline (h.entries i) < h.deadline (h.entries j) :=
  Int64.lt_iff_toInt_lt

/-! ## The sifts -/

/-- **`sift_up` ends in a heap**, from an entry at `k` that may be before its parent, with fuel
for the `k` steps it can take. -/
theorem siftUpLoop_spec {fuel k : Nat} {h : RunHeap τ} (hl : Layout h) (hk : k < h.size)
    (hfuel : k ≤ fuel) (ho : UpOrder h.deadline h.entries h.size k) :
    ∃ h', siftUpLoop fuel h k = some h' ∧ HeapInv h' ∧ Resift h h' := by
  induction fuel generalizing h k with
  | zero =>
    obtain rfl : k = 0 := by omega
    exact ⟨h, rfl, ⟨hl, ho.finish (fun h0 => absurd h0 (Nat.lt_irrefl 0))⟩, Resift.refl h⟩
  | succ fuel ih =>
    rw [siftUpLoop]
    by_cases hk0 : k > 0
    · rw [if_pos hk0]
      dsimp only
      by_cases hlt : h.key k < h.key ((k - 1) / 2)
      · -- one swap with the parent, then the rest of the loop from there
        rw [if_pos hlt]
        have hpk : parent k < k := parent_lt hk0
        obtain ⟨h₁, hs, he, hl₁, hr₁⟩ := swapEntries_spec hl hk (show (k - 1) / 2 < h.size by omega)
        have ho₁ : UpOrder h₁.deadline h₁.entries h₁.size (parent k) := by
          rw [hr₁.deadline_eq, he, hr₁.size_eq]
          exact ho.swap hk0 hk ((key_lt_iff h k _).mp hlt)
        obtain ⟨h₂, hs₂, hinv, hr₂⟩ := ih hl₁ (by rw [hr₁.size_eq]; omega) (by omega) ho₁
        exact ⟨h₂, by rw [hs, Option.bind_some]; exact hs₂, hinv, hr₁.trans hr₂⟩
      · rw [if_neg hlt]
        exact ⟨h, rfl, ⟨hl, ho.finish (fun _ => le_of_not_gt (mt (key_lt_iff h k _).mpr hlt))⟩,
          Resift.refl h⟩
    · rw [if_neg hk0]
      exact ⟨h, rfl, ⟨hl, ho.finish (fun h0 => absurd h0 hk0)⟩, Resift.refl h⟩

theorem siftUp_spec {k : Nat} {h : RunHeap τ} (hl : Layout h) (hk : k < h.size)
    (ho : UpOrder h.deadline h.entries h.size k) :
    ∃ h', h.siftUp k = some h' ∧ HeapInv h' ∧ Resift h h' := by
  rw [siftUp, if_neg (Nat.not_lt.mpr hl.size_le)]
  exact siftUpLoop_spec hl hk (Nat.le_refl k) ho

/-- `sift_up` does nothing to an entry at or after its parent. -/
theorem siftUp_of_not_lt {k : Nat} {h : RunHeap τ} (hl : Layout h)
    (hge : ¬ (0 < k ∧ h.key k < h.key (parent k))) : h.siftUp k = some h := by
  rw [siftUp, if_neg (Nat.not_lt.mpr hl.size_le)]
  cases k with
  | zero => rfl
  | succ k =>
    rw [siftUpLoop, if_pos (Nat.succ_pos k)]
    exact if_neg (fun hlt => hge ⟨Nat.succ_pos k, hlt⟩)

omit [DecidableEq τ] in
/-- A comparison of `sift_down` never panics in a heap within its capacity. -/
theorem siftDownPick_eq {h : RunHeap τ} (hl : h.size ≤ perCpuHeapCap) (c s : Nat) :
    h.siftDownPick c s = some (if c < h.size ∧ h.key c < h.key s then c else s) := by
  unfold siftDownPick
  by_cases hc : c < h.size
  · rw [if_pos hc, if_neg (by omega)]
    by_cases hlt : h.key c < h.key s
    · rw [if_pos hlt, if_pos ⟨hc, hlt⟩]
    · rw [if_neg hlt, if_neg (fun h' => hlt h'.2)]
  · rw [if_neg hc, if_neg (fun h' => hc h'.1)]

omit [DecidableEq τ] in
/-- What one comparison of `sift_down` keeps: the child, when it is in the heap and before the
position so far, or the position so far; at or before both. -/
theorem pick_spec (h : RunHeap τ) {c s r : Nat}
    (hr : r = if c < h.size ∧ h.key c < h.key s then c else s) :
    (r = c ∧ c < h.size ∨ r = s) ∧
      h.deadline (h.entries r) ≤ h.deadline (h.entries s) ∧
      (c < h.size → h.deadline (h.entries r) ≤ h.deadline (h.entries c)) ∧
      (r ≠ s → h.deadline (h.entries r) < h.deadline (h.entries s)) := by
  subst hr
  by_cases hcs : c < h.size ∧ h.key c < h.key s
  · have hlt := (key_lt_iff h c s).mp hcs.2
    rw [if_pos hcs]
    exact ⟨.inl ⟨rfl, hcs.1⟩, le_of_lt hlt, fun _ => le_refl _, fun _ => hlt⟩
  · rw [if_neg hcs]
    refine ⟨.inr rfl, le_refl _, fun hc => ?_, fun hne => absurd rfl hne⟩
    exact le_of_not_gt (fun hlt => hcs ⟨hc, (key_lt_iff h c s).mpr hlt⟩)

omit [DecidableEq τ] in
/-- The position `sift_down` picks from `k` and its two children: `k` or a child in the heap,
at or before `k` and both children, and strictly before `k` when it is not `k`. -/
theorem siftDown_choice (h : RunHeap τ) {k s₁ s : Nat}
    (h₁ : s₁ = if 2 * k + 1 < h.size ∧ h.key (2 * k + 1) < h.key k then 2 * k + 1 else k)
    (h₂ : s = if 2 * k + 2 < h.size ∧ h.key (2 * k + 2) < h.key s₁ then 2 * k + 2 else s₁) :
    (s = k ∨ (0 < s ∧ s < h.size ∧ parent s = k)) ∧
      (s ≠ k → h.deadline (h.entries s) < h.deadline (h.entries k)) ∧
      (∀ c, 0 < c → c < h.size → parent c = k →
        h.deadline (h.entries s) ≤ h.deadline (h.entries c)) := by
  obtain ⟨hw₁, hle₁, hc₁, hlt₁⟩ := pick_spec h h₁
  obtain ⟨hw₂, hle₂, hc₂, hlt₂⟩ := pick_spec h h₂
  refine ⟨?_, ?_, ?_⟩
  · rcases hw₂ with ⟨rfl, hs⟩ | rfl
    · exact .inr ⟨by omega, hs, parent_right k⟩
    · rcases hw₁ with ⟨rfl, hs⟩ | rfl
      · exact .inr ⟨by omega, hs, parent_left k⟩
      · exact .inl rfl
  · intro hsk
    by_cases hs : s = s₁
    · subst hs
      exact hlt₁ hsk
    · exact lt_of_lt_of_le (hlt₂ hs) hle₁
  · intro c hc0 hc hpc
    rcases eq_child_of_parent hc0 hpc with rfl | rfl
    · exact le_trans hle₂ (hc₁ hc)
    · exact hc₂ hc

/-- One iteration of `sift_down` in a heap within its capacity: the two comparisons, then a
swap with the position they picked unless it is `idx`. -/
theorem siftDownLoop_succ {h : RunHeap τ} (hl : h.size ≤ perCpuHeapCap) {fuel k s₁ s : Nat}
    (h₁ : s₁ = if 2 * k + 1 < h.size ∧ h.key (2 * k + 1) < h.key k then 2 * k + 1 else k)
    (h₂ : s = if 2 * k + 2 < h.size ∧ h.key (2 * k + 2) < h.key s₁ then 2 * k + 2 else s₁) :
    siftDownLoop (fuel + 1) h k =
      if s ≠ k then (h.swapEntries k s).bind (fun h' => siftDownLoop fuel h' s) else some h := by
  subst h₁ h₂
  rw [siftDownLoop, siftDownPick_eq hl, Option.bind_eq_bind, Option.bind_some,
    siftDownPick_eq hl, Option.bind_some]
  rfl

/-- **`sift_down` ends in a heap**, from an entry at `k` that may be after its children, with
fuel for the steps down to the end of the heap. -/
theorem siftDownLoop_spec {fuel k : Nat} {h : RunHeap τ} (hl : Layout h)
    (hfuel : h.size ≤ fuel + k) (ho : DownOrder h.deadline h.entries h.size k) :
    ∃ h', siftDownLoop fuel h k = some h' ∧ HeapInv h' ∧ Resift h h' := by
  induction fuel generalizing h k with
  | zero =>
    refine ⟨h, rfl, ⟨hl, ho.finish fun c hc0 hc hpc => ?_⟩, Resift.refl h⟩
    have := lt_of_parent_eq hc0 hpc
    omega
  | succ fuel ih =>
    obtain ⟨s₁, h₁⟩ : ∃ s₁, s₁ =
        if 2 * k + 1 < h.size ∧ h.key (2 * k + 1) < h.key k then 2 * k + 1 else k := ⟨_, rfl⟩
    obtain ⟨s, h₂⟩ : ∃ s, s =
        if 2 * k + 2 < h.size ∧ h.key (2 * k + 2) < h.key s₁ then 2 * k + 2 else s₁ := ⟨_, rfl⟩
    obtain ⟨hs, hlt, hmin⟩ := siftDown_choice h h₁ h₂
    rw [siftDownLoop_succ hl.size_le h₁ h₂]
    by_cases hsk : s = k
    · -- `k` is at or before both children: the loop stops in a heap
      rw [if_neg (not_not.mpr hsk)]
      subst hsk
      exact ⟨h, rfl, ⟨hl, ho.finish hmin⟩, Resift.refl h⟩
    · -- one swap with the least child, then the rest of the loop from there
      rw [if_pos hsk]
      obtain ⟨hs0, hsn, hps⟩ := hs.resolve_left hsk
      have hks := lt_of_parent_eq hs0 hps
      obtain ⟨h₁, hsw, he, hl₁, hr₁⟩ := swapEntries_spec hl (show k < h.size by omega) hsn
      have ho₁ : DownOrder h₁.deadline h₁.entries h₁.size s := by
        rw [hr₁.deadline_eq, he, hr₁.size_eq]
        exact ho.swap hs0 hsn hps (hlt hsk) hmin
      obtain ⟨h₂, hs₂, hinv, hr₂⟩ := ih hl₁ (by rw [hr₁.size_eq]; omega) ho₁
      exact ⟨h₂, by rw [hsw, Option.bind_some]; exact hs₂, hinv, hr₁.trans hr₂⟩

theorem siftDown_spec {k : Nat} {h : RunHeap τ} (hl : Layout h)
    (ho : DownOrder h.deadline h.entries h.size k) :
    ∃ h', h.siftDown k = some h' ∧ HeapInv h' ∧ Resift h h' := by
  rw [siftDown, if_neg (Nat.not_lt.mpr hl.size_le)]
  exact siftDownLoop_spec hl (Nat.le_add_right _ _) ho

/-- `sift_down` does nothing in a heap. -/
theorem siftDown_of_heapInv {k : Nat} {h : RunHeap τ} (hinv : HeapInv h) :
    h.siftDown k = some h := by
  rw [siftDown, if_neg (Nat.not_lt.mpr hinv.size_le)]
  cases hsize : h.size with
  | zero => rfl
  | succ fuel =>
    obtain ⟨s₁, h₁⟩ : ∃ s₁, s₁ =
        if 2 * k + 1 < h.size ∧ h.key (2 * k + 1) < h.key k then 2 * k + 1 else k := ⟨_, rfl⟩
    obtain ⟨s, h₂⟩ : ∃ s, s =
        if 2 * k + 2 < h.size ∧ h.key (2 * k + 2) < h.key s₁ then 2 * k + 2 else s₁ := ⟨_, rfl⟩
    obtain ⟨hs, hlt, -⟩ := siftDown_choice h h₁ h₂
    rw [siftDownLoop_succ hinv.size_le h₁ h₂]
    have hsk : s = k := by
      by_contra hsk
      obtain ⟨hs0, hsn, hps⟩ := hs.resolve_left hsk
      have hord := hinv.ordered s hs0 hsn
      rw [hps] at hord
      exact absurd (hlt hsk) (not_lt.mpr hord)
    rw [if_neg (not_not.mpr hsk)]

/-- **The re-sift of `remove` and `update`**: `sift_up` then `sift_down` at a hole end in a
heap. An entry before its parent goes up and then stays; any other goes down. -/
theorem resift_spec {k : Nat} {h : RunHeap τ} (hl : Layout h) (hk : k < h.size)
    (ho : HoleAt h.deadline h.entries h.size k) :
    ∃ h', (h.siftUp k).bind (·.siftDown k) = some h' ∧ HeapInv h' ∧ Resift h h' := by
  by_cases hup : 0 < k ∧ h.key k < h.key (parent k)
  · obtain ⟨h₁, hs₁, hinv₁, hr₁⟩ :=
      siftUp_spec hl hk (ho.up hup.1 ((key_lt_iff h k _).mp hup.2))
    exact ⟨h₁, by rw [hs₁, Option.bind_some, siftDown_of_heapInv hinv₁], hinv₁, hr₁⟩
  · have hge : 0 < k → h.deadline (h.entries (parent k)) ≤ h.deadline (h.entries k) :=
      fun hk0 => le_of_not_gt fun hlt => hup ⟨hk0, (key_lt_iff h k _).mpr hlt⟩
    obtain ⟨h₁, hs₁, hinv₁, hr₁⟩ := siftDown_spec hl (ho.down hge)
    exact ⟨h₁, by rw [siftUp_of_not_lt hl hup, Option.bind_some, hs₁], hinv₁, hr₁⟩

/-! ## Positions and membership -/

omit [DecidableEq τ] in
theorem toInt_ofNat_of_lt_cap {i : Nat} (hi : i < perCpuHeapCap) : (Int32.ofNat i).toInt = i :=
  Int32.toInt_ofNat_of_lt (by unfold perCpuHeapCap at hi; omega)

omit [DecidableEq τ] in
/-- A member's `heap_index` is its position. -/
theorem Layout.heapIndex_toInt {h : RunHeap τ} (hl : Layout h) {i : Nat} (hi : i < h.size) :
    (h.tasks (h.entries i)).heapIndex.toInt = i := by
  rw [hl.index i hi, toInt_ofNat_of_lt_cap (by have := hl.size_le; omega)]

omit [DecidableEq τ] in
/-- A task with a negative `heap_index` is not a member. -/
theorem Layout.not_mem_of_heapIndex_neg {h : RunHeap τ} (hl : Layout h) {t : τ}
    (hneg : (h.tasks t).heapIndex < 0) : ¬ Mem h t := by
  rintro ⟨i, hi, rfl⟩
  rw [Int32.lt_iff_toInt_lt, hl.heapIndex_toInt hi, Int32.toInt_zero] at hneg
  omega

omit [DecidableEq τ] in
theorem indexOf_spec {h : RunHeap τ} {t : τ} {i : Nat} (hi : h.indexOf t = some i) :
    i < h.size ∧ (h.tasks t).heapIndex.toInt = i := by
  unfold indexOf at hi
  dsimp only at hi
  split at hi
  · cases hi
  · rename_i hcond
    cases hi
    rw [not_or, Int32.lt_iff_toInt_lt, Int32.toInt_zero] at hcond
    omega

omit [DecidableEq τ] in
theorem indexOf_of_lt {h : RunHeap τ} (hl : Layout h) {i : Nat} (hi : i < h.size) :
    h.indexOf (h.entries i) = some i := by
  have hidx := hl.heapIndex_toInt hi
  unfold indexOf
  rw [if_neg (by rw [not_or, Int32.lt_iff_toInt_lt, Int32.toInt_zero, hidx]; omega), hidx,
    Int.toNat_natCast]

omit [DecidableEq τ] in
/-- A task is a member exactly when its `heap_index` names a position that holds it. -/
theorem mem_iff_indexOf {h : RunHeap τ} (hl : Layout h) {t : τ} :
    Mem h t ↔ ∃ i, h.indexOf t = some i ∧ h.entries i = t := by
  constructor
  · rintro ⟨i, hi, rfl⟩
    exact ⟨i, indexOf_of_lt hl hi, rfl⟩
  · rintro ⟨i, hidx, rfl⟩
    exact ⟨i, (indexOf_spec hidx).1, rfl⟩

/-- **`contains` is membership.** -/
theorem contains_iff {h : RunHeap τ} (hl : Layout h) (t : τ) : h.contains t = true ↔ Mem h t := by
  rw [mem_iff_indexOf hl]
  unfold contains
  cases hidx : h.indexOf t with
  | none => simp
  | some i => simp

omit [DecidableEq τ] in
/-- **`peek_min` is a member of least `vdeadline`**, and `none` only on an empty heap. -/
theorem peekMin_spec {h : RunHeap τ} (hinv : HeapInv h) :
    (h.peekMin = none ↔ h.size = 0) ∧
      ∀ t, h.peekMin = some t →
        Mem h t ∧ ∀ u, Mem h u → (h.tasks t).vdeadline ≤ (h.tasks u).vdeadline := by
  unfold peekMin
  by_cases h0 : h.size = 0
  · simp [h0]
  · rw [if_neg h0]
    refine ⟨by simp [h0], fun t ht => ?_⟩
    cases ht
    refine ⟨⟨0, by omega, rfl⟩, ?_⟩
    rintro u ⟨j, hj, rfl⟩
    exact Int64.le_iff_toInt_le.mpr (hinv.ordered.root_le hj)

/-! ## Insert -/

/-- The heap that `insert` sifts: `t` written after the last entry. -/
def appended (h : RunHeap τ) (t : τ) : RunHeap τ :=
  { entries := Function.update h.entries h.size t
    size := h.size + 1
    tasks := setHeapIndex h.tasks t (Int32.ofNat h.size) }

theorem appended_entries_of_lt (h : RunHeap τ) (t : τ) {i : Nat} (hi : i < h.size) :
    (h.appended t).entries i = h.entries i :=
  Function.update_of_ne (by omega) _ _

@[simp] theorem appended_entries_size (h : RunHeap τ) (t : τ) :
    (h.appended t).entries h.size = t :=
  Function.update_self _ _ _

@[simp] theorem appended_deadline (h : RunHeap τ) (t : τ) :
    (h.appended t).deadline = h.deadline := by
  funext u
  simp [appended, deadline]

/-- Appending a task that is not a member keeps the layout. -/
theorem Layout.appended {h : RunHeap τ} (hl : Layout h) {t : τ} (hsize : h.size < perCpuHeapCap)
    (ht : ¬ Mem h t) : Layout (h.appended t) where
  size_le := hsize
  distinct := by
    intro i j hi hj he
    change i < h.size + 1 at hi
    change j < h.size + 1 at hj
    have hnew : ∀ k, k < h.size → h.entries k ≠ t := fun k hk hkt => ht ⟨k, hk, hkt⟩
    rcases Nat.lt_or_eq_of_le (Nat.le_of_lt_succ hi) with hi' | rfl <;>
      rcases Nat.lt_or_eq_of_le (Nat.le_of_lt_succ hj) with hj' | rfl
    · rw [appended_entries_of_lt _ _ hi', appended_entries_of_lt _ _ hj'] at he
      exact hl.distinct i j hi' hj' he
    · rw [appended_entries_of_lt _ _ hi', appended_entries_size] at he
      exact absurd he (hnew i hi')
    · rw [appended_entries_of_lt _ _ hj', appended_entries_size] at he
      exact absurd he.symm (hnew j hj')
    · rfl
  index := by
    intro i hi
    change i < h.size + 1 at hi
    rcases Nat.lt_or_eq_of_le (Nat.le_of_lt_succ hi) with hi' | rfl
    · rw [appended_entries_of_lt _ _ hi']
      change (setHeapIndex h.tasks t _ (h.entries i)).heapIndex = _
      rw [setHeapIndex_heapIndex_of_ne _ _ _ (fun he => ht ⟨i, hi', he⟩)]
      exact hl.index i hi'
    · rw [appended_entries_size]
      exact setHeapIndex_heapIndex_self _ _ _

theorem mem_appended_iff (h : RunHeap τ) (t u : τ) :
    Mem (h.appended t) u ↔ Mem h u ∨ u = t := by
  constructor
  · rintro ⟨i, hi, rfl⟩
    change i < h.size + 1 at hi
    rcases Nat.lt_or_eq_of_le (Nat.le_of_lt_succ hi) with hi' | rfl
    · exact .inl ⟨i, hi', (appended_entries_of_lt _ _ hi').symm⟩
    · exact .inr (appended_entries_size _ _)
  · rintro (⟨i, hi, rfl⟩ | rfl)
    · exact ⟨i, Nat.lt_succ_of_lt hi, appended_entries_of_lt _ _ hi⟩
    · exact ⟨h.size, Nat.lt_succ_self _, appended_entries_size _ _⟩

/-- `insert` refuses a full heap and a task whose `heap_index` is set, and changes nothing. -/
theorem insert_of_not_lt {h : RunHeap τ} {t : τ}
    (hno : ¬ (h.size < perCpuHeapCap ∧ (h.tasks t).heapIndex < 0)) :
    h.insert t = some (h, false) := by
  unfold insert
  by_cases hfull : h.size ≥ perCpuHeapCap
  · rw [if_pos hfull]
  · have hset : (h.tasks t).heapIndex ≥ 0 :=
      Int32.not_lt.mp fun hneg => hno ⟨Nat.lt_of_not_le hfull, hneg⟩
    rw [if_neg hfull, if_pos hset]

/-- **`insert` of a task outside the heap, with room for it**: the task joins the members and
the heap keeps its invariant. -/
theorem insert_spec {h : RunHeap τ} (hinv : HeapInv h) {t : τ} (hsize : h.size < perCpuHeapCap)
    (hneg : (h.tasks t).heapIndex < 0) :
    ∃ h', h.insert t = some (h', true) ∧ HeapInv h' ∧ h'.size = h.size + 1 ∧
      ∀ u, Mem h' u ↔ Mem h u ∨ u = t := by
  have hl₀ := hinv.appended hsize (hinv.not_mem_of_heapIndex_neg hneg)
  -- the new entry is the only one out of place
  have ho₀ : UpOrder (h.appended t).deadline (h.appended t).entries (h.size + 1) h.size :=
    hinv.ordered.upOrder_push fun i hi => by rw [appended_deadline, appended_entries_of_lt _ _ hi]
  obtain ⟨h', hs, hinv', hr⟩ := siftUp_spec hl₀ (Nat.lt_succ_self h.size) ho₀
  refine ⟨h', ?_, hinv', hr.size_eq, fun u => (hr.mem_iff u).trans (mem_appended_iff h t u)⟩
  have hset : ¬ (h.tasks t).heapIndex ≥ 0 := Int32.not_le.mpr hneg
  rw [insert, if_neg (Nat.not_le.mpr hsize), if_neg hset]
  change ((h.appended t).siftUp h.size).map (·, true) = _
  rw [hs, Option.map_some]

/-! ## Remove -/

/-- The heap that `remove` sifts after taking `t` out of position `idx`, short of the last:
the last entry moved into the gap. -/
def filled (h : RunHeap τ) (t : τ) (idx : Nat) : RunHeap τ :=
  { entries := Function.update h.entries idx (h.entries (h.size - 1))
    size := h.size - 1
    tasks := setHeapIndex (setHeapIndex h.tasks t (-1)) (h.entries (h.size - 1)) (Int32.ofNat idx) }

theorem filled_entries_of_ne (h : RunHeap τ) (t : τ) {idx j : Nat} (hj : j ≠ idx) :
    (h.filled t idx).entries j = h.entries j :=
  Function.update_of_ne hj _ _

@[simp] theorem filled_entries_self (h : RunHeap τ) (t : τ) (idx : Nat) :
    (h.filled t idx).entries idx = h.entries (h.size - 1) :=
  Function.update_self _ _ _

@[simp] theorem filled_deadline (h : RunHeap τ) (t : τ) (idx : Nat) :
    (h.filled t idx).deadline = h.deadline := by
  funext u
  simp [filled, deadline]

theorem remove_of_not_mem {h : RunHeap τ} {t : τ} (ht : ¬ Mem h t) :
    h.remove t = some (h, false) := by
  unfold remove
  cases hidx : h.indexOf t with
  | none => rfl
  | some i =>
    dsimp only
    exact if_pos fun he => ht ⟨i, (indexOf_spec hidx).1, he⟩

/-- `remove` of the last entry only shortens the heap. -/
theorem remove_last {h : RunHeap τ} (hl : Layout h) {i : Nat} (hi : i < h.size)
    (hlast : i = h.size - 1) :
    h.remove (h.entries i) =
      some ({ h with tasks := setHeapIndex h.tasks (h.entries i) (-1), size := h.size - 1 }, true) := by
  rw [remove, indexOf_of_lt hl hi]
  dsimp only
  rw [if_neg (not_not.mpr rfl), if_pos hlast]

/-- `remove` of any other entry fills the gap with the last one and re-sifts there. -/
theorem remove_filled {h : RunHeap τ} (hl : Layout h) {i : Nat} (hi : i < h.size)
    (hlast : i ≠ h.size - 1) :
    h.remove (h.entries i) =
      (((h.filled (h.entries i) i).siftUp i).bind (·.siftDown i)).map (·, true) := by
  rw [remove, indexOf_of_lt hl hi, Option.map_bind]
  dsimp only
  rw [if_neg (not_not.mpr rfl), if_neg hlast, Function.update_self]
  rfl

/-- Filling the gap keeps the layout of the shorter heap. -/
theorem Layout.filled {h : RunHeap τ} (hl : Layout h) {i : Nat} (hi : i < h.size - 1) :
    Layout (h.filled (h.entries i) i) where
  size_le := by have := hl.size_le; change h.size - 1 ≤ _; omega
  distinct := by
    intro j k hj hk he
    change j < h.size - 1 at hj
    change k < h.size - 1 at hk
    by_cases hji : j = i <;> by_cases hki : k = i
    · rw [hji, hki]
    · rw [hji, filled_entries_self, filled_entries_of_ne _ _ hki] at he
      have := hl.distinct _ _ (by omega) (by omega) he
      omega
    · rw [hki, filled_entries_self, filled_entries_of_ne _ _ hji] at he
      have := hl.distinct _ _ (by omega) (by omega) he
      omega
    · rw [filled_entries_of_ne _ _ hji, filled_entries_of_ne _ _ hki] at he
      exact hl.distinct _ _ (by omega) (by omega) he
  index := by
    intro j hj
    change j < h.size - 1 at hj
    by_cases hji : j = i
    · subst hji
      rw [filled_entries_self]
      exact setHeapIndex_heapIndex_self _ _ _
    · have hne : ∀ k, k < h.size → k ≠ j → h.entries j ≠ h.entries k := fun k hk hkj he =>
        hkj (hl.distinct _ _ hk (by omega) he.symm)
      rw [filled_entries_of_ne _ _ hji]
      change (setHeapIndex (setHeapIndex h.tasks _ _) _ _ (h.entries j)).heapIndex = _
      rw [setHeapIndex_heapIndex_of_ne _ _ _ (hne _ (by omega) (by omega)),
        setHeapIndex_heapIndex_of_ne _ _ _ (hne i (by omega) (Ne.symm hji))]
      exact hl.index j (by omega)

theorem mem_filled_iff {h : RunHeap τ} (hl : Layout h) {i : Nat} (hi : i < h.size - 1) (u : τ) :
    Mem (h.filled (h.entries i) i) u ↔ Mem h u ∧ u ≠ h.entries i := by
  constructor
  · rintro ⟨j, hj, rfl⟩
    change j < h.size - 1 at hj
    by_cases hji : j = i
    · subst hji
      rw [filled_entries_self]
      exact ⟨⟨_, by omega, rfl⟩, fun he => by have := hl.distinct _ _ (by omega) (by omega) he; omega⟩
    · rw [filled_entries_of_ne _ _ hji]
      exact ⟨⟨_, by omega, rfl⟩, fun he => hji (hl.distinct _ _ (by omega) (by omega) he)⟩
  · rintro ⟨⟨j, hj, rfl⟩, hne⟩
    have hji : j ≠ i := fun hji => hne (by rw [hji])
    by_cases hlast : j = h.size - 1
    · exact ⟨i, hi, by rw [filled_entries_self, hlast]⟩
    · exact ⟨j, show j < h.size - 1 by omega, filled_entries_of_ne _ _ hji⟩

/-- **`remove` of a member**: exactly that task leaves, its `heap_index` becomes `-1`, and the
heap keeps its invariant. -/
theorem remove_spec {h : RunHeap τ} (hinv : HeapInv h) {t : τ} (ht : Mem h t) :
    ∃ h', h.remove t = some (h', true) ∧ HeapInv h' ∧ h'.size = h.size - 1 ∧
      (∀ u, Mem h' u ↔ Mem h u ∧ u ≠ t) ∧ (h'.tasks t).heapIndex = -1 := by
  obtain ⟨i, hi, rfl⟩ := ht
  by_cases hlast : i = h.size - 1
  · refine ⟨_, remove_last hinv.toLayout hi hlast, ⟨⟨?_, ?_, ?_⟩, ?_⟩, rfl, fun u => ?_,
      setHeapIndex_heapIndex_self _ _ _⟩
    · exact Nat.le_trans (Nat.sub_le _ _) hinv.size_le
    · intro j k hj hk he
      exact hinv.distinct j k (by change j < h.size - 1 at hj; omega)
        (by change k < h.size - 1 at hk; omega) he
    · intro j hj
      change j < h.size - 1 at hj
      change (setHeapIndex h.tasks _ _ (h.entries j)).heapIndex = _
      rw [setHeapIndex_heapIndex_of_ne _ _ _
        (fun he => by have := hinv.distinct _ _ (by omega) hi he; omega)]
      exact hinv.index j (by omega)
    · exact hinv.ordered.of_agree (Nat.sub_le _ _) fun j _ => by simp [deadline]
    · constructor
      · rintro ⟨j, hj, rfl⟩
        change j < h.size - 1 at hj
        exact ⟨⟨j, by omega, rfl⟩, fun he => by have := hinv.distinct _ _ (by omega) hi he; omega⟩
      · rintro ⟨⟨j, hj, rfl⟩, hne⟩
        have hji : j ≠ i := fun hji => hne (by rw [hji])
        exact ⟨j, show j < h.size - 1 by omega, rfl⟩
  · have hi' : i < h.size - 1 := by omega
    have hl₀ := hinv.filled hi'
    have ho₀ : HoleAt (h.filled (h.entries i) i).deadline (h.filled (h.entries i) i).entries
        (h.size - 1) i :=
      hinv.ordered.holeAt fun j hj hji => ⟨by omega, by rw [filled_deadline, filled_entries_of_ne _ _ hji]⟩
    obtain ⟨h', hs, hinv', hr⟩ := resift_spec hl₀ hi' ho₀
    have hnot : ¬ Mem (h.filled (h.entries i) i) (h.entries i) := fun hm =>
      ((mem_filled_iff hinv.toLayout hi' _).mp hm).2 rfl
    refine ⟨h', by rw [remove_filled hinv.toLayout hi hlast, hs, Option.map_some], hinv',
      hr.size_eq, fun u => (hr.mem_iff u).trans (mem_filled_iff hinv.toLayout hi' u), ?_⟩
    rw [hr.heapIndex_eq _ hnot]
    change (setHeapIndex (setHeapIndex h.tasks _ _) _ _ (h.entries i)).heapIndex = _
    rw [setHeapIndex_heapIndex_of_ne _ _ _
      (fun he => by have := hinv.distinct _ _ hi (by omega) he; omega)]
    exact setHeapIndex_heapIndex_self _ _ _

/-! ## Update, and runs of the heap -/

/-- The scheduler's write `t->vdeadline = d`, after which it calls `update`. -/
def setVdeadline (h : RunHeap τ) (t : τ) (d : Int64) : RunHeap τ :=
  { h with tasks := Function.update h.tasks t { h.tasks t with vdeadline := d } }

/-- The scheduler's write `t->vruntime = v`, which the heap's order does not read. -/
def setVruntime (h : RunHeap τ) (t : τ) (v : Int64) : RunHeap τ :=
  { h with tasks := Function.update h.tasks t { h.tasks t with vruntime := v } }

@[simp] theorem setVdeadline_heapIndex (h : RunHeap τ) (t : τ) (d : Int64) (u : τ) :
    ((h.setVdeadline t d).tasks u).heapIndex = (h.tasks u).heapIndex := by
  by_cases hu : u = t
  · subst hu; simp [setVdeadline]
  · simp [setVdeadline, Function.update_of_ne hu]

theorem setVdeadline_deadline_of_ne (h : RunHeap τ) {t u : τ} (d : Int64) (hu : u ≠ t) :
    (h.setVdeadline t d).deadline u = h.deadline u := by
  simp [setVdeadline, deadline, Function.update_of_ne hu]

@[simp] theorem setVruntime_heapIndex (h : RunHeap τ) (t : τ) (v : Int64) (u : τ) :
    ((h.setVruntime t v).tasks u).heapIndex = (h.tasks u).heapIndex := by
  by_cases hu : u = t
  · subst hu; simp [setVruntime]
  · simp [setVruntime, Function.update_of_ne hu]

@[simp] theorem setVruntime_deadline (h : RunHeap τ) (t : τ) (v : Int64) :
    (h.setVruntime t v).deadline = h.deadline := by
  funext u
  by_cases hu : u = t
  · subst hu; simp [setVruntime, deadline]
  · simp [setVruntime, deadline, Function.update_of_ne hu]

theorem Layout.setVdeadline {h : RunHeap τ} (hl : Layout h) (t : τ) (d : Int64) :
    Layout (h.setVdeadline t d) :=
  ⟨hl.size_le, hl.distinct, fun i hi => by rw [setVdeadline_heapIndex]; exact hl.index i hi⟩

theorem HeapInv.setVruntime {h : RunHeap τ} (hinv : HeapInv h) (t : τ) (v : Int64) :
    HeapInv (h.setVruntime t v) :=
  ⟨⟨hinv.size_le, hinv.distinct, fun i hi => by rw [setVruntime_heapIndex]; exact hinv.index i hi⟩,
    by rw [setVruntime_deadline]; exact hinv.ordered⟩

omit [DecidableEq τ] in
theorem init_heapInv (h : RunHeap τ) : HeapInv h.init :=
  ⟨⟨Nat.zero_le _, fun _ _ hi => absurd hi (Nat.not_lt_zero _),
    fun _ hi => absurd hi (Nat.not_lt_zero _)⟩, fun _ _ hi => absurd hi (Nat.not_lt_zero _)⟩

/-- `update` of the entry at a hole re-sifts it into place. -/
theorem update_spec {h : RunHeap τ} (hl : Layout h) {i : Nat} (hi : i < h.size)
    (ho : HoleAt h.deadline h.entries h.size i) :
    ∃ h', h.update (h.entries i) = some h' ∧ HeapInv h' ∧ Resift h h' := by
  unfold update
  rw [indexOf_of_lt hl hi]
  exact resift_spec hl hi ho

/-- `update` of any task keeps a heap, whatever position its `heap_index` names. -/
theorem update_heapInv {h : RunHeap τ} (hinv : HeapInv h) (t : τ) :
    ∃ h', h.update t = some h' ∧ HeapInv h' ∧ Resift h h' := by
  unfold update
  cases hidx : h.indexOf t with
  | none => exact ⟨h, rfl, hinv, Resift.refl h⟩
  | some i => exact resift_spec hinv.toLayout (indexOf_spec hidx).1 (hinv.ordered.holeAt_self i)

/-- **A new `vdeadline` followed by `update`** keeps the heap and its members. -/
theorem reschedule_spec {h : RunHeap τ} (hinv : HeapInv h) (t : τ) (d : Int64) :
    ∃ h', (h.setVdeadline t d).update t = some h' ∧ HeapInv h' ∧ h'.size = h.size ∧
      ∀ u, Mem h' u ↔ Mem h u := by
  by_cases ht : Mem h t
  · obtain ⟨i, hi, rfl⟩ := ht
    have ho : HoleAt (h.setVdeadline (h.entries i) d).deadline h.entries h.size i :=
      hinv.ordered.holeAt fun j hj hji =>
        ⟨hj, setVdeadline_deadline_of_ne _ _ fun he => hji (hinv.distinct _ _ hj hi he)⟩
    obtain ⟨h', hs, hinv', hr⟩ := update_spec (hinv.setVdeadline _ d) hi ho
    exact ⟨h', hs, hinv', hr.size_eq, hr.mem_iff⟩
  · have hinv₁ : HeapInv (h.setVdeadline t d) :=
      ⟨hinv.setVdeadline t d, hinv.ordered.of_agree (Nat.le_refl _) fun j hj =>
        setVdeadline_deadline_of_ne _ _ fun he => ht ⟨j, hj, he⟩⟩
    obtain ⟨h', hs, hinv', hr⟩ := update_heapInv hinv₁ t
    exact ⟨h', hs, hinv', hr.size_eq, hr.mem_iff⟩

/-- The calls a run of the heap is made of. -/
inductive Op (τ : Type) where
  | init
  | insert (t : τ)
  | remove (t : τ)
  /-- a new `vdeadline` for `t`, then `update t` -/
  | reschedule (t : τ) (d : Int64)
  /-- a new `vruntime` for `t` -/
  | setVruntime (t : τ) (v : Int64)

/-- One call; `none` is a panic. -/
def Op.apply : Op τ → RunHeap τ → Option (RunHeap τ)
  | .init, h => some h.init
  | .insert t, h => (h.insert t).map Prod.fst
  | .remove t, h => (h.remove t).map Prod.fst
  | .reschedule t d, h => (h.setVdeadline t d).update t
  | .setVruntime t v, h => some (h.setVruntime t v)

/-- A sequence of calls, stopped by the first panic. -/
def run : List (Op τ) → RunHeap τ → Option (RunHeap τ)
  | [], h => some h
  | op :: ops, h => (op.apply h).bind (run ops)

/-- **One call from a heap** does not panic and ends in a heap. -/
theorem Op.apply_heapInv {h : RunHeap τ} (hinv : HeapInv h) (op : Op τ) :
    ∃ h', op.apply h = some h' ∧ HeapInv h' := by
  cases op with
  | init => exact ⟨_, rfl, init_heapInv h⟩
  | insert t =>
    by_cases hok : h.size < perCpuHeapCap ∧ (h.tasks t).heapIndex < 0
    · obtain ⟨h', hs, hinv', -⟩ := insert_spec hinv hok.1 hok.2
      exact ⟨h', by rw [Op.apply, hs, Option.map_some], hinv'⟩
    · exact ⟨h, by rw [Op.apply, insert_of_not_lt hok, Option.map_some], hinv⟩
  | remove t =>
    by_cases ht : Mem h t
    · obtain ⟨h', hs, hinv', -⟩ := remove_spec hinv ht
      exact ⟨h', by rw [Op.apply, hs, Option.map_some], hinv'⟩
    · exact ⟨h, by rw [Op.apply, remove_of_not_mem ht, Option.map_some], hinv⟩
  | reschedule t d =>
    obtain ⟨h', hs, hinv', -⟩ := reschedule_spec hinv t d
    exact ⟨h', hs, hinv'⟩
  | setVruntime t v => exact ⟨_, rfl, hinv.setVruntime t v⟩

/-- **Every run from a heap** goes to its end and ends in a heap. -/
theorem run_heapInv {h : RunHeap τ} (hinv : HeapInv h) (ops : List (Op τ)) :
    ∃ h', run ops h = some h' ∧ HeapInv h' := by
  induction ops generalizing h with
  | nil => exact ⟨h, rfl, hinv⟩
  | cons op ops ih =>
    obtain ⟨h₁, hs₁, hinv₁⟩ := op.apply_heapInv hinv
    obtain ⟨h', hs, hinv'⟩ := ih hinv₁
    exact ⟨h', by rw [run, hs₁, Option.bind_some, hs], hinv'⟩

/-! ## The scan of `pick_best_eligible` -/

/-- `t` is eligible at `avg`: its `vruntime` is at most the average. -/
def Eligible (h : RunHeap τ) (avg : Int64) (t : τ) : Prop := (h.tasks t).vruntime ≤ avg

/-- `avg - t->vruntime` does not overflow. -/
def LagFits (h : RunHeap τ) (avg : Int64) (t : τ) : Prop :=
  -2 ^ 63 ≤ avg.toInt - (h.tasks t).vruntime.toInt ∧
    avg.toInt - (h.tasks t).vruntime.toInt < 2 ^ 63

omit [DecidableEq τ] in
instance (h : RunHeap τ) (avg : Int64) (t : τ) : Decidable (Eligible h avg t) :=
  inferInstanceAs (Decidable ((h.tasks t).vruntime ≤ avg))

omit [DecidableEq τ] in
instance (h : RunHeap τ) (avg : Int64) (t : τ) : Decidable (LagFits h avg t) :=
  inferInstanceAs (Decidable (_ ∧ _))

omit [DecidableEq τ] in
/-- Without overflow, a task's lag is not negative exactly when it is eligible. -/
theorem lag_nonneg_iff {h : RunHeap τ} {avg : Int64} {t : τ} (hfit : LagFits h avg t) :
    avg - (h.tasks t).vruntime ≥ 0 ↔ Eligible h avg t := by
  obtain ⟨hlo, hhi⟩ := hfit
  rw [ge_iff_le, Int64.le_iff_toInt_le, Int64.toInt_zero, Int64.toInt_sub,
    Int.bmod_eq_of_le (by omega) (by omega), Eligible, Int64.le_iff_toInt_le]
  omega

/-- The depth bound of the scan's stack, top first: the entry with `d` entries under it is at
depth `d` or deeper, that is, at position `2 ^ d - 1` or later. -/
def StackDepth : List Nat → Prop
  | [] => True
  | idx :: rest => 2 ^ rest.length ≤ idx + 1 ∧ StackDepth rest

/-- The stack after an entry that is not eligible: its children in the heap pushed, the left
one first. -/
def pushChildren (n idx : Nat) (rest : List Nat) : List Nat :=
  let stack := if 2 * idx + 1 < n then (2 * idx + 1) :: rest else rest
  if 2 * idx + 2 < n then (2 * idx + 2) :: stack else stack

/-- What the scan may still visit: the positions below each entry of its stack. -/
noncomputable def pending (n : Nat) (stack : List Nat) : Nat :=
  (stack.map fun s => (below n s).card).sum

/-- **The guard `stack_size < 30` holds** whenever an entry of a heap within its capacity is
popped: the entries under it are at most one per level above it, and the heap has 13. -/
theorem StackDepth.guard {idx : Nat} {rest : List Nat} (hd : StackDepth (idx :: rest))
    (hi : idx < perCpuHeapCap) : rest.length < 30 := by
  by_contra hge
  have hpow : 2 ^ 30 ≤ 2 ^ rest.length := Nat.pow_le_pow_right (by decide) (by omega)
  have := hd.1
  unfold perCpuHeapCap at hi
  omega

theorem mem_pushChildren {n idx s : Nat} {rest : List Nat} :
    s ∈ pushChildren n idx rest ↔
      (s = 2 * idx + 1 ∧ 2 * idx + 1 < n) ∨ (s = 2 * idx + 2 ∧ 2 * idx + 2 < n) ∨ s ∈ rest := by
  unfold pushChildren
  by_cases hl : 2 * idx + 1 < n <;> by_cases hr : 2 * idx + 2 < n <;>
    simp [hl, hr, or_left_comm]

theorem StackDepth.pushChildren {n idx : Nat} {rest : List Nat} (hd : StackDepth (idx :: rest)) :
    StackDepth (pushChildren n idx rest) := by
  obtain ⟨hidx, hrest⟩ := hd
  have hleft : StackDepth (if 2 * idx + 1 < n then (2 * idx + 1) :: rest else rest) := by
    split
    · exact ⟨by omega, hrest⟩
    · exact hrest
  have hlen : (if 2 * idx + 1 < n then (2 * idx + 1) :: rest else rest).length ≤
      rest.length + 1 := by
    split <;> simp
  unfold RunHeap.pushChildren
  dsimp only
  by_cases hr : 2 * idx + 2 < n
  · rw [if_pos hr]
    refine ⟨?_, hleft⟩
    calc 2 ^ (if 2 * idx + 1 < n then (2 * idx + 1) :: rest else rest).length
        ≤ 2 ^ (rest.length + 1) := Nat.pow_le_pow_right (by decide) hlen
      _ = 2 * 2 ^ rest.length := by rw [Nat.pow_succ, Nat.mul_comm]
      _ ≤ 2 * idx + 2 + 1 := by omega
  · rw [if_neg hr]
    exact hleft

@[simp] theorem pending_nil (n : Nat) : pending n [] = 0 := rfl

@[simp] theorem pending_cons (n s : Nat) (stack : List Nat) :
    pending n (s :: stack) = (below n s).card + pending n stack := by
  simp [pending]

/-- Expanding an entry leaves one position fewer to visit: the entry itself. -/
theorem pending_pushChildren {n idx : Nat} (rest : List Nat) (hi : idx < n) :
    pending n (pushChildren n idx rest) + 1 = pending n (idx :: rest) := by
  have hout : ∀ c, ¬ c < n → (below n c).card = 0 := fun c hc => by
    rw [below_eq_empty (Nat.le_of_not_lt hc), Finset.card_empty]
  rw [pending_cons, card_below hi]
  unfold pushChildren
  by_cases hl : 2 * idx + 1 < n <;> by_cases hr : 2 * idx + 2 < n <;>
    simp [hl, hr, hout] <;> omega

/-- **The invariant of the scan**: its stack holds positions of the heap within the depth
bound, its best task so far is an eligible member with its deadline, and every eligible member
is below an entry of the stack or no earlier than the best task. -/
structure ScanInv (h : RunHeap τ) (avg : Int64) (stack : List Nat) (best : Option τ)
    (bestDeadline : Int64) : Prop where
  lt_size : ∀ s ∈ stack, s < h.size
  depth : StackDepth stack
  best_ok : ∀ b, best = some b → Mem h b ∧ Eligible h avg b ∧ bestDeadline = (h.tasks b).vdeadline
  cover : ∀ j, j < h.size → Eligible h avg (h.entries j) →
    (∃ s ∈ stack, IsAnc s j) ∨ ∃ b, best = some b ∧ h.deadline b ≤ h.deadline (h.entries j)

/-- What the scan returns: an eligible member, no later than every eligible member. -/
structure ScanResult (h : RunHeap τ) (avg : Int64) (r : Option τ) : Prop where
  eligible : ∀ b, r = some b → Mem h b ∧ Eligible h avg b
  least : ∀ t, Mem h t → Eligible h avg t → ∃ b, r = some b ∧ h.deadline b ≤ h.deadline t

omit [DecidableEq τ] in
theorem ScanInv.start {h : RunHeap τ} (avg : Int64) (h0 : 0 < h.size) :
    ScanInv h avg [0] none 0 where
  lt_size s hs := by rw [List.mem_singleton.mp hs]; exact h0
  depth := ⟨Nat.le_refl 1, trivial⟩
  best_ok _ hb := nomatch hb
  cover j _ _ := .inl ⟨0, List.mem_singleton_self 0, zero_isAnc j⟩

omit [DecidableEq τ] in
theorem ScanInv.result {h : RunHeap τ} {avg : Int64} {best : Option τ} {bd : Int64}
    (hs : ScanInv h avg [] best bd) : ScanResult h avg best where
  eligible b hb := ⟨(hs.best_ok b hb).1, (hs.best_ok b hb).2.1⟩
  least := by
    rintro t ⟨j, hj, rfl⟩ het
    rcases hs.cover j hj het with ⟨s, hs', -⟩ | hb
    · exact absurd hs' (List.not_mem_nil)
    · exact hb

omit [DecidableEq τ] in
/-- An eligible entry ends the search below it: the new best task is no later than it, hence,
in a heap, than every entry below it. -/
theorem ScanInv.visit {h : RunHeap τ} (hinv : HeapInv h) {avg : Int64} {idx : Nat}
    {rest : List Nat} {best best' : Option τ} {bd bd' : Int64}
    (hs : ScanInv h avg (idx :: rest) best bd)
    (hok : ∀ b, best' = some b → Mem h b ∧ Eligible h avg b ∧ bd' = (h.tasks b).vdeadline)
    (hidx : ∃ b, best' = some b ∧ h.deadline b ≤ h.deadline (h.entries idx))
    (hdom : ∀ b, best = some b → ∃ b', best' = some b' ∧ h.deadline b' ≤ h.deadline b) :
    ScanInv h avg rest best' bd' where
  lt_size s hs' := hs.lt_size s (List.mem_cons_of_mem _ hs')
  depth := hs.depth.2
  best_ok := hok
  cover := by
    intro j hj hej
    rcases hs.cover j hj hej with ⟨s, hsm, hanc⟩ | ⟨b, hb, hle⟩
    · rcases List.mem_cons.mp hsm with rfl | hsr
      · obtain ⟨b', hb', hle'⟩ := hidx
        exact .inr ⟨b', hb', le_trans hle' (hinv.ordered.anc_le hanc hj)⟩
      · exact .inl ⟨s, hsr, hanc⟩
    · obtain ⟨b', hb', hle'⟩ := hdom b hb
      exact .inr ⟨b', hb', le_trans hle' hle⟩

omit [DecidableEq τ] in
/-- An entry that is not eligible hands the search below it to its children. -/
theorem ScanInv.expand {h : RunHeap τ} {avg : Int64} {idx : Nat} {rest : List Nat}
    {best : Option τ} {bd : Int64} (hs : ScanInv h avg (idx :: rest) best bd)
    (hne : ¬ Eligible h avg (h.entries idx)) :
    ScanInv h avg (pushChildren h.size idx rest) best bd where
  lt_size s hsm := by
    rcases mem_pushChildren.mp hsm with ⟨rfl, hl⟩ | ⟨rfl, hr⟩ | hsr
    · exact hl
    · exact hr
    · exact hs.lt_size s (List.mem_cons_of_mem _ hsr)
  depth := hs.depth.pushChildren
  best_ok := hs.best_ok
  cover := by
    intro j hj hej
    rcases hs.cover j hj hej with ⟨s, hsm, hanc⟩ | hb
    · rcases List.mem_cons.mp hsm with rfl | hsr
      · cases hanc with
        | refl => exact absurd hej hne
        | left hc =>
          have := hc.le
          exact .inl ⟨_, mem_pushChildren.mpr (.inl ⟨rfl, by omega⟩), hc⟩
        | right hc =>
          have := hc.le
          exact .inl ⟨_, mem_pushChildren.mpr (.inr (.inl ⟨rfl, by omega⟩)), hc⟩
      · exact .inl ⟨s, mem_pushChildren.mpr (.inr (.inr hsr)), hanc⟩
    · exact .inr hb

omit [DecidableEq τ] in
/-- One pass of the scan's loop, from a position of the heap. -/
theorem pickLoop_cons {h : RunHeap τ} (avg : Int64) {idx : Nat} (hi : idx < h.size) (fuel : Nat)
    (rest : List Nat) (best : Option τ) (bd : Int64) :
    h.pickLoop avg (fuel + 1) (idx :: rest) best bd =
      if avg - (h.tasks (h.entries idx)).vruntime ≥ 0 then
        if best.isNone || (h.tasks (h.entries idx)).vdeadline < bd then
          h.pickLoop avg fuel rest (some (h.entries idx)) (h.tasks (h.entries idx)).vdeadline
        else h.pickLoop avg fuel rest best bd
      else if rest.length < 30 then h.pickLoop avg fuel (pushChildren h.size idx rest) best bd
      else h.pickLoop avg fuel rest best bd := by
  rw [pickLoop, if_neg (Nat.not_le.mpr hi)]
  rfl

omit [DecidableEq τ] in
/-- **One pass of the scan keeps its invariant** and leaves fewer positions to visit. -/
theorem ScanInv.step {h : RunHeap τ} (hinv : HeapInv h) {avg : Int64}
    (hfit : ∀ t, Mem h t → LagFits h avg t) {idx : Nat} {rest : List Nat} {best : Option τ}
    {bd : Int64} (hs : ScanInv h avg (idx :: rest) best bd) (fuel : Nat) :
    ∃ stack best' bd', h.pickLoop avg (fuel + 1) (idx :: rest) best bd =
        h.pickLoop avg fuel stack best' bd' ∧ ScanInv h avg stack best' bd' ∧
      pending h.size stack < pending h.size (idx :: rest) := by
  have hi : idx < h.size := hs.lt_size idx List.mem_cons_self
  have hmem : Mem h (h.entries idx) := ⟨idx, hi, rfl⟩
  have hdrop : pending h.size rest < pending h.size (idx :: rest) := by
    rw [pending_cons]
    have := card_below_pos hi
    omega
  rw [pickLoop_cons avg hi]
  by_cases he : Eligible h avg (h.entries idx)
  · rw [if_pos ((lag_nonneg_iff (hfit _ hmem)).mpr he)]
    have hnew : ∀ b, some (h.entries idx) = some b →
        Mem h b ∧ Eligible h avg b ∧ (h.tasks (h.entries idx)).vdeadline = (h.tasks b).vdeadline :=
      fun b hb => by cases hb; exact ⟨hmem, he, rfl⟩
    cases best with
    | none =>
      refine ⟨rest, _, _, if_pos rfl, hs.visit hinv hnew ⟨_, rfl, le_refl _⟩ ?_, hdrop⟩
      intro b hb
      cases hb
    | some b =>
      obtain ⟨-, -, rfl⟩ := hs.best_ok b rfl
      by_cases hlt : (h.tasks (h.entries idx)).vdeadline < (h.tasks b).vdeadline
      · refine ⟨rest, _, _, if_pos (by simp [hlt]), hs.visit hinv hnew ⟨_, rfl, le_refl _⟩ ?_, hdrop⟩
        intro b' hb'
        cases hb'
        exact ⟨_, rfl, le_of_lt (Int64.lt_iff_toInt_lt.mp hlt)⟩
      · refine ⟨rest, _, _, if_neg (by simp [hlt]), hs.visit hinv hs.best_ok
          ⟨b, rfl, Int64.le_iff_toInt_le.mp (Int64.not_lt.mp hlt)⟩
          fun b' hb' => ⟨b', hb', le_refl _⟩, hdrop⟩
  · rw [if_neg (mt (lag_nonneg_iff (hfit _ hmem)).mp he),
      if_pos (hs.depth.guard (Nat.lt_of_lt_of_le hi hinv.size_le))]
    refine ⟨_, best, bd, rfl, hs.expand he, ?_⟩
    have := pending_pushChildren rest hi
    omega

omit [DecidableEq τ] in
/-- **The scan ends with the best eligible member**, given fuel for every position it may
still visit. -/
theorem pickLoop_spec {h : RunHeap τ} (hinv : HeapInv h) {avg : Int64}
    (hfit : ∀ t, Mem h t → LagFits h avg t) {fuel : Nat} {stack : List Nat} {best : Option τ}
    {bd : Int64} (hs : ScanInv h avg stack best bd) (hfuel : pending h.size stack < fuel) :
    ScanResult h avg (h.pickLoop avg fuel stack best bd) := by
  induction fuel generalizing stack best bd with
  | zero => omega
  | succ fuel ih =>
    cases stack with
    | nil => exact hs.result
    | cons idx rest =>
      obtain ⟨stack', best', bd', heq, hs', hlt⟩ := hs.step hinv hfit fuel
      rw [heq]
      exact ih hs' (by omega)

omit [DecidableEq τ] in
/-- **`pick_best_eligible` is exact**: `none` only on an empty heap; otherwise the eligible
member of least `vdeadline` when there is one, and the root when there is none. -/
theorem pickBestEligible_spec {h : RunHeap τ} (hinv : HeapInv h) {avg : Int64}
    (hfit : ∀ t, Mem h t → LagFits h avg t) :
    (h.pickBestEligible avg = none ↔ h.size = 0) ∧
      ∀ r, h.pickBestEligible avg = some r → Mem h r ∧
        ((∃ t, Mem h t ∧ Eligible h avg t) → Eligible h avg r ∧
          ∀ t, Mem h t → Eligible h avg t → (h.tasks r).vdeadline ≤ (h.tasks t).vdeadline) ∧
        ((¬ ∃ t, Mem h t ∧ Eligible h avg t) → r = h.entries 0) := by
  unfold pickBestEligible
  by_cases h0 : h.size = 0
  · simp [h0]
  · rw [if_neg h0]
    -- the whole heap is below the root, so `size + 1` passes are enough
    have hfuel : pending h.size [0] < h.size + 1 := by
      rw [pending_cons, pending_nil]
      have := card_below_le h.size 0
      omega
    have hres := pickLoop_spec hinv hfit (ScanInv.start avg (Nat.pos_of_ne_zero h0)) hfuel
    generalize h.pickLoop avg (h.size + 1) [0] none 0 = r₀ at hres
    cases r₀ with
    | none =>
      refine ⟨by simpa using h0, fun r hr => ?_⟩
      cases hr
      have hnone : ¬ ∃ t, Mem h t ∧ Eligible h avg t := fun ⟨t, ht, het⟩ => by
        obtain ⟨b, hb, -⟩ := hres.least t ht het
        cases hb
      exact ⟨⟨0, Nat.pos_of_ne_zero h0, rfl⟩, fun hex => absurd hex hnone, fun _ => rfl⟩
    | some b =>
      refine ⟨by simpa using h0, fun r hr => ?_⟩
      cases hr
      obtain ⟨hbm, hbe⟩ := hres.eligible b rfl
      refine ⟨hbm, fun _ => ⟨hbe, fun t ht het => ?_⟩, fun hnone => absurd ⟨b, hbm, hbe⟩ hnone⟩
      obtain ⟨b', hb', hle⟩ := hres.least t ht het
      cases hb'
      exact Int64.le_iff_toInt_le.mpr hle

/-- The root and its left child are not eligible at `5`; the right child is. -/
example :
    ({ entries := fun i => i, size := 3,
       tasks := fun i => ⟨Int32.ofNat i, if i = 2 then 0 else 10, Int64.ofNat i⟩ } :
      RunHeap Nat).pickBestEligible 5 = some 2 := by
  decide

/-- **The run heap refines an indexed set of tasks and picks exactly.** After every sequence of
calls from `init`, none of which panics: the entries are distinct, each entry's `heap_index` is
its position, and each entry's `vdeadline` is at least its parent's; `insert`, `remove`,
`contains` and `peek_min` act on the members as a set; and, where no lag overflows,
`pick_best_eligible` returns the eligible member of least `vdeadline`, or the root when no member
is eligible. -/
theorem runHeap_refines_indexed_set (h₀ : RunHeap τ) (ops : List (Op τ)) :
    ∃ h, run ops h₀.init = some h ∧
      ((∀ i j, i < h.size → j < h.size → h.entries i = h.entries j → i = j) ∧
        (∀ i, i < h.size → (h.tasks (h.entries i)).heapIndex.toInt = i) ∧
        (∀ i, 0 < i → i < h.size →
          (h.tasks (h.entries ((i - 1) / 2))).vdeadline ≤ (h.tasks (h.entries i)).vdeadline)) ∧
      (∀ t, ∃ h' b, h.insert t = some (h', b) ∧
        (b = true ↔ h.size < perCpuHeapCap ∧ (h.tasks t).heapIndex < 0) ∧
        (b = true → h'.size = h.size + 1 ∧ ∀ u, Mem h' u ↔ Mem h u ∨ u = t) ∧
        (b = false → h' = h)) ∧
      (∀ t, ∃ h' b, h.remove t = some (h', b) ∧ (b = true ↔ Mem h t) ∧
        (b = true → h'.size = h.size - 1 ∧ ∀ u, Mem h' u ↔ Mem h u ∧ u ≠ t) ∧
        (b = false → h' = h)) ∧
      (∀ t, h.contains t = true ↔ Mem h t) ∧
      ((h.peekMin = none ↔ h.size = 0) ∧
        ∀ t, h.peekMin = some t →
          Mem h t ∧ ∀ u, Mem h u → (h.tasks t).vdeadline ≤ (h.tasks u).vdeadline) ∧
      (∀ avg, (∀ t, Mem h t → LagFits h avg t) →
        (h.pickBestEligible avg = none ↔ h.size = 0) ∧
        ∀ r, h.pickBestEligible avg = some r → Mem h r ∧
          ((∃ t, Mem h t ∧ Eligible h avg t) → Eligible h avg r ∧
            ∀ t, Mem h t → Eligible h avg t → (h.tasks r).vdeadline ≤ (h.tasks t).vdeadline) ∧
          ((¬ ∃ t, Mem h t ∧ Eligible h avg t) → r = h.entries 0)) := by
  obtain ⟨h, hrun, hinv⟩ := run_heapInv (init_heapInv h₀) ops
  refine ⟨h, hrun, ⟨hinv.distinct, fun i hi => hinv.heapIndex_toInt hi, fun i hi0 hi =>
    Int64.le_iff_toInt_le.mpr (hinv.ordered i hi0 hi)⟩, fun t => ?_, fun t => ?_,
    contains_iff hinv.toLayout, peekMin_spec hinv, fun avg hfit => pickBestEligible_spec hinv hfit⟩
  · by_cases hok : h.size < perCpuHeapCap ∧ (h.tasks t).heapIndex < 0
    · obtain ⟨h', hs, -, hsize, hmem⟩ := insert_spec hinv hok.1 hok.2
      exact ⟨h', true, hs, iff_of_true rfl hok, fun _ => ⟨hsize, hmem⟩,
        fun hf => absurd hf Bool.noConfusion⟩
    · exact ⟨h, false, insert_of_not_lt hok, iff_of_false Bool.false_ne_true hok,
        fun hf => absurd hf Bool.false_ne_true, fun _ => rfl⟩
  · by_cases ht : Mem h t
    · obtain ⟨h', hs, -, hsize, hmem, -⟩ := remove_spec hinv ht
      exact ⟨h', true, hs, iff_of_true rfl ht, fun _ => ⟨hsize, hmem⟩,
        fun hf => absurd hf Bool.noConfusion⟩
    · exact ⟨h, false, remove_of_not_mem ht, iff_of_false Bool.false_ne_true ht,
        fun hf => absurd hf Bool.false_ne_true, fun _ => rfl⟩

/-- Tasks `0` to `3` inserted into a fresh heap, and task `1` removed again: at average `5`
the root, task `0`, is not eligible, and `pick_best_eligible` returns task `2`, the eligible
member of least `vdeadline`. -/
theorem runHeap_refines_indexed_set_four :
    ∃ h, run [.insert 0, .insert 1, .insert 2, .insert 3, .remove 1]
        ({ entries := fun _ => 0, size := 0,
           tasks := fun t => ⟨-1, if t = 0 then 10 else if t = 3 then 5 else 0,
             Int64.ofNat (t.val + 1)⟩ } : RunHeap (Fin 4)).init = some h ∧
      h.pickBestEligible 5 = some 2 ∧ Mem h 2 ∧ Eligible h 5 2 ∧
      ∀ t, Mem h t → Eligible h 5 t → (h.tasks 2).vdeadline ≤ (h.tasks t).vdeadline := by
  obtain ⟨h, hrun, -, -, -, -, -, hpick⟩ := runHeap_refines_indexed_set
    ({ entries := fun _ => 0, size := 0,
       tasks := fun t => ⟨-1, if t = 0 then 10 else if t = 3 then 5 else 0,
         Int64.ofNat (t.val + 1)⟩ } : RunHeap (Fin 4))
    [.insert 0, .insert 1, .insert 2, .insert 3, .remove 1]
  have hrun' := congrArg (Option.all fun h : RunHeap (Fin 4) =>
    decide ((∀ t, LagFits h 5 t) ∧ Eligible h 5 2 ∧ h.pickBestEligible 5 = some 2)) hrun
  rw [Option.all_some] at hrun'
  obtain ⟨hfit, helig, hsome⟩ := of_decide_eq_true (hrun'.symm.trans (by decide +kernel))
  obtain ⟨hmem, heligible, -⟩ := (hpick 5 fun t _ => hfit t).2 2 hsome
  exact ⟨h, hrun, hsome, hmem, helig, (heligible ⟨2, hmem, helig⟩).2⟩

end RunHeap

end Wos.Sched
