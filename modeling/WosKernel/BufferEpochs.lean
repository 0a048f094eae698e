import WosKernel.BufferCache

/-! # Dirty epochs over runs, and the newest-wins overlay

`allocate_dirty_epoch` draws epochs from one counter, so in every state the cache
reaches from an empty one two buffers with the same nonzero epoch are one buffer
(`Cache.Wf`, `World.wf_of_run`).

The overlay loops (`overlayLoop`) copy the admitted buffers in strictly increasing
epoch order: each round takes the oldest one above the bound (`oldestAfter`) and
raises the bound to its epoch.  With distinct epochs no admitted buffer is passed
over, so every block of the range ends with the bytes of the newest admitted buffer
that covers it (`NewestWins`, `overlayLoop_newestWins`).  Each round leaves fewer
admitted buffers above the bound (`pendingAbove_lt`), so the loop stops by itself
before the model's fuel runs out (`overlayLoop_fuel_eq`).
-/

namespace Wos.BufferCache

variable {V : Type}

/-- Block `k` is one of the buffer's blocks. -/
def BufHead.Covers (b : BufHead V) (k : Nat) : Prop := b.blockNo ≤ k ∧ k < b.blockNo + b.count

/-- Two buffers of `bufs` with the same nonzero dirty epoch are one buffer. -/
def EpochsDistinct (bufs : List (BufHead V)) : Prop :=
  ∀ a ∈ bufs, ∀ b ∈ bufs, a.dirtyEpoch = b.dirtyEpoch → 0 < a.dirtyEpoch → a = b

/-! ## The epoch invariant of every reachable cache -/

/-- Every epoch in use is below the counter, the counter starts at `1`, a dirty buffer
has been given an epoch, and nonzero epochs are not shared. -/
structure Cache.Wf (c : Cache V) : Prop where
  distinct : EpochsDistinct c.buffers
  epoch_lt : ∀ b ∈ c.buffers, b.dirtyEpoch < c.nextDirtyEpoch
  dirty_pos : ∀ b ∈ c.buffers, b.dirty = true → 0 < b.dirtyEpoch
  next_pos : 0 < c.nextDirtyEpoch

namespace Cache.Wf

variable {c c' : Cache V}

/-- Dropping buffers keeps the invariant. -/
theorem of_subset (h : c.Wf) (hs : c'.buffers ⊆ c.buffers)
    (hn : c'.nextDirtyEpoch = c.nextDirtyEpoch) : c'.Wf where
  distinct a ha b hb := h.distinct a (hs ha) b (hs hb)
  epoch_lt b hb := hn ▸ h.epoch_lt b (hs hb)
  dirty_pos b hb := h.dirty_pos b (hs hb)
  next_pos := hn ▸ h.next_pos

/-- So does a change of every buffer that keeps its epoch and makes no clean buffer
dirty. -/
theorem of_map (h : c.Wf) {g : BufHead V → BufHead V} (hg : ∀ b, (g b).dirtyEpoch = b.dirtyEpoch)
    (hd : ∀ b, (g b).dirty = true → b.dirty = true) (hb : c'.buffers = c.buffers.map g)
    (hn : c'.nextDirtyEpoch = c.nextDirtyEpoch) : c'.Wf := by
  refine ⟨?_, ?_, ?_, hn ▸ h.next_pos⟩
  · intro a ha b hb' he hpos
    rw [hb] at ha hb'
    obtain ⟨a₀, ha₀, rfl⟩ := List.mem_map.mp ha
    obtain ⟨b₀, hb₀, rfl⟩ := List.mem_map.mp hb'
    rw [hg, hg] at he
    rw [hg] at hpos
    rw [h.distinct a₀ ha₀ b₀ hb₀ he hpos]
  · intro b hb'
    rw [hb] at hb'
    obtain ⟨b₀, hb₀, rfl⟩ := List.mem_map.mp hb'
    rw [hg, hn]
    exact h.epoch_lt b₀ hb₀
  · intro b hb' hdirty
    rw [hb] at hb'
    obtain ⟨b₀, hb₀, rfl⟩ := List.mem_map.mp hb'
    rw [hg]
    exact h.dirty_pos b₀ hb₀ (hd b₀ hdirty)

/-- A new clean buffer with epoch `0` keeps it. -/
theorem append_fresh (h : c.Wf) {b : BufHead V} (he : b.dirtyEpoch = 0) (hd : b.dirty = false)
    (hb : c'.buffers = c.buffers ++ [b]) (hn : c'.nextDirtyEpoch = c.nextDirtyEpoch) : c'.Wf := by
  have hmem : ∀ x ∈ c'.buffers, x ∈ c.buffers ∨ x = b := by
    intro x hx
    rw [hb] at hx
    simpa using hx
  refine ⟨?_, ?_, ?_, hn ▸ h.next_pos⟩
  · intro x hx y hy hxy hpos
    rcases hmem x hx with hx | rfl
    · rcases hmem y hy with hy | rfl
      · exact h.distinct x hx y hy hxy hpos
      · omega
    · omega
  · intro x hx
    rw [hn]
    rcases hmem x hx with hx | rfl
    · exact h.epoch_lt x hx
    · rw [he]; exact h.next_pos
  · intro x hx hdirty
    rcases hmem x hx with hx | rfl
    · exact h.dirty_pos x hx hdirty
    · rw [hd] at hdirty; cases hdirty

/-- A buffer given the counter's epoch, with the counter raised, keeps it. -/
theorem cons_fresh (h : c.Wf) {b : BufHead V} (he : b.dirtyEpoch = c.nextDirtyEpoch)
    (hs : ∀ x ∈ c'.buffers, x ∈ c.buffers ∨ x = b) (hn : c'.nextDirtyEpoch = c.nextDirtyEpoch + 1) :
    c'.Wf := by
  refine ⟨?_, ?_, ?_, by omega⟩
  · intro x hx y hy hxy hpos
    rcases hs x hx with hx | rfl
    · rcases hs y hy with hy | rfl
      · exact h.distinct x hx y hy hxy hpos
      · have := h.epoch_lt x hx; omega
    · rcases hs y hy with hy | rfl
      · have := h.epoch_lt y hy; omega
      · rfl
  · intro x hx
    rw [hn]
    rcases hs x hx with hx | rfl
    · have := h.epoch_lt x hx; omega
    · omega
  · intro x hx _
    rcases hs x hx with hx | rfl
    · exact h.dirty_pos x hx ‹_›
    · rw [he]; exact h.next_pos

theorem modify (h : c.Wf) {id : Nat} {f : BufHead V → BufHead V} (hf : ∀ b, (f b).dirtyEpoch = b.dirtyEpoch)
    (hd : ∀ b, (f b).dirty = true → b.dirty = true) : (c.modify id f).Wf := by
  refine h.of_map (g := fun b => if b.id == id then f b else b) ?_ ?_ rfl rfl
  · intro b
    split
    · exact hf b
    · rfl
  · intro b
    split
    · exact hd b
    · exact fun hd => hd

theorem markDirty (h : c.Wf) (id : Nat) : (c.markDirty id).Wf := by
  unfold Cache.markDirty
  split
  · exact h
  · rename_i b _
    refine h.cons_fresh (b := { b with dirtyEpoch := c.nextDirtyEpoch, dirty := true }) rfl ?_ rfl
    intro x hx
    obtain ⟨x₀, hx₀, rfl⟩ := List.mem_map.mp (List.mem_filter.mp hx).1
    split
    · exact Or.inr rfl
    · exact Or.inl hx₀

theorem bget (h : c.Wf) (fill : V) (blockNo count : Nat) : (c.bget fill blockNo count).1.Wf := by
  unfold Cache.bget
  split
  · exact h.modify (fun _ => rfl) (fun _ hd => hd)
  · exact h.append_fresh rfl rfl rfl rfl

theorem bread [Inhabited V] (h : c.Wf) (blockNo : Nat) : (c.bread blockNo).1.Wf := by
  unfold Cache.bread
  split
  · exact h.modify (fun _ => rfl) (fun _ hd => hd)
  · exact h.append_fresh rfl rfl rfl rfl

theorem finishWrite (h : c.Wf) (id epoch : Nat) (ok : Bool) : (c.finishWrite id epoch ok).Wf := by
  refine h.modify ?_ ?_
  · intro b
    split <;> rfl
  · intro b
    split
    · intro hd; cases hd
    · exact fun hd => hd

theorem foldl_finishWrite (ok : Bool) :
    ∀ (run : List (BufHead V)) (c : Cache V), c.Wf →
      (run.foldl (fun c' x => c'.finishWrite x.id x.dirtyEpoch ok) c).Wf
  | [], _, h => h
  | x :: run, _, h => foldl_finishWrite ok run _ (h.finishWrite x.id x.dirtyEpoch ok)

theorem bwrite [Inhabited V] (h : c.Wf) (id : Nat) (ok : Bool) : (c.bwrite id ok).1.Wf := by
  have h₁ := h.markDirty id
  dsimp only [Cache.bwrite]
  split
  · exact h₁
  · split
    · exact h₁
    · apply finishWrite
      split
      · exact h₁.of_subset (fun _ hx => hx) rfl
      · exact h₁

theorem reclaim (h : c.Wf) {id : Nat} (hr : c.reclaim id = some c') : c'.Wf := by
  unfold Cache.reclaim at hr
  split at hr
  · split at hr
    · cases hr
      exact h.of_subset (fun _ hx => (List.mem_filter.mp hx).1) rfl
    · cases hr
  · cases hr

theorem writebackDirtyOneAfter [Inhabited V] (h : c.Wf) (minEpoch maxEpoch : Nat) (ok : Bool) :
    (c.writebackDirtyOneAfter minEpoch maxEpoch ok).1.Wf := by
  unfold Cache.writebackDirtyOneAfter
  split
  · exact h
  · split
    · exact h
    · split
      · exact h
      · apply foldl_finishWrite
        split
        · exact h.of_subset (fun _ hx => hx) rfl
        · exact h

theorem syncLoop [Inhabited V] (maxEpoch : Nat) :
    ∀ (fuel : Nat) (c : Cache V) (minEpoch : Nat) (oks : List Bool), c.Wf →
      (Cache.syncLoop maxEpoch fuel c minEpoch oks).1.Wf
  | 0, _, _, _, h => h
  | fuel + 1, c, minEpoch, oks, h => by
    have h₁ := h.writebackDirtyOneAfter minEpoch maxEpoch (oks.headD true)
    simp only [Cache.syncLoop]
    split
    · exact syncLoop maxEpoch fuel _ _ _ h₁
    · exact h₁

end Cache.Wf

theorem World.step_wf [Inhabited V] {w w' : World V} {op : Op V} (h : w.cache.Wf)
    (hs : w.step op = some w') : w'.cache.Wf := by
  cases op with
  | bget fill blockNo count => cases hs; exact h.bget fill blockNo count
  | bread blockNo => cases hs; exact h.bread blockNo
  | overwrite id data => cases hs; exact h.modify (fun _ => rfl) (fun _ hd => hd)
  | bdirty id => cases hs; exact h.markDirty id
  | bwrite id ok => cases hs; exact h.bwrite id ok
  | brelse id => cases hs; exact h.modify (fun _ => rfl) (fun _ hd => hd)
  | journalHold id => cases hs; exact h.modify (fun _ => rfl) (fun _ hd => hd)
  | journalRelease id => cases hs; exact h.modify (fun _ => rfl) (fun _ hd => hd)
  | reclaim id =>
    obtain ⟨c, hc, rfl⟩ := Option.map_eq_some_iff.mp hs
    exact h.reclaim hc
  | writebackDirtyOne ok => cases hs; exact h.writebackDirtyOneAfter _ _ ok
  | syncBlockdev oks => cases hs; exact Cache.Wf.syncLoop _ _ _ _ oks h

theorem World.run_wf [Inhabited V] : ∀ {w w' : World V} {ops : List (Op V)}, w.cache.Wf →
    w.run ops = some w' → w'.cache.Wf
  | _, _, [], h, hr => by cases hr; exact h
  | w, _, op :: ops, h, hr => by
    obtain ⟨w₁, h₁, hr⟩ := Option.bind_eq_some_iff.mp hr
    exact World.run_wf (World.step_wf h h₁) hr

/-- **Epochs are distinct in every reachable cache.** -/
theorem World.wf_of_run [Inhabited V] {disk : Nat → V} {ops : List (Op V)} {w : World V}
    (h : (World.init disk).run ops = some w) : w.cache.Wf :=
  World.run_wf ⟨fun _ ha => absurd ha List.not_mem_nil, fun _ hb => absurd hb List.not_mem_nil,
    fun _ hb => absurd hb List.not_mem_nil, Nat.one_pos⟩ h

/-! ## The oldest admitted buffer above a bound -/

section Sweep

variable {sel : BufHead V → Bool} {bufs : List (BufHead V)}

/-- What `oldestAfter` finds is admitted, above the bound, and no newer than any
other admitted buffer above it. -/
theorem oldestAfter_some {e : Nat} {a : BufHead V} (h : oldestAfter sel e bufs = some a) :
    a ∈ bufs ∧ sel a = true ∧ e < a.dirtyEpoch ∧
      ∀ b ∈ bufs, sel b = true → e < b.dirtyEpoch → a.dirtyEpoch ≤ b.dirtyEpoch := by
  induction bufs generalizing a with
  | nil => cases h
  | cons x rest ih =>
    simp only [oldestAfter] at h
    split at h
    · rename_i hx
      generalize hr : oldestAfter sel e rest = r at h
      cases r with
      | none =>
        cases h
        refine ⟨List.mem_cons_self .., hx.1, hx.2, fun b hb hsb heb => ?_⟩
        rcases List.mem_cons.mp hb with rfl | hb
        · exact Nat.le_refl _
        · have := oldestAfter_eq_none.mp hr b hb hsb
          omega
      | some o =>
        obtain ⟨ho, hso, heo, hmin⟩ := ih hr
        dsimp only at h
        split at h
        · cases h
          refine ⟨List.mem_cons_of_mem _ ho, hso, heo, fun b hb hsb heb => ?_⟩
          rcases List.mem_cons.mp hb with rfl | hb
          · omega
          · exact hmin b hb hsb heb
        · cases h
          refine ⟨List.mem_cons_self .., hx.1, hx.2, fun b hb hsb heb => ?_⟩
          rcases List.mem_cons.mp hb with rfl | hb
          · exact Nat.le_refl _
          · have := hmin b hb hsb heb
            omega
    · rename_i hx
      obtain ⟨ha, hsa, hea, hmin⟩ := ih h
      refine ⟨List.mem_cons_of_mem _ ha, hsa, hea, fun b hb hsb heb => ?_⟩
      rcases List.mem_cons.mp hb with rfl | hb
      · exact absurd ⟨hsb, heb⟩ hx
      · exact hmin b hb hsb heb

theorem countP_lt_countP {α : Type} {p q : α → Bool} {l : List α} {a : α}
    (h : ∀ x ∈ l, p x = true → q x = true) (ha : a ∈ l) (hq : q a = true) (hp : p a = false) :
    l.countP p < l.countP q := by
  induction l with
  | nil => cases ha
  | cons x l ih =>
    have hl : ∀ y ∈ l, p y = true → q y = true := fun y hy => h y (List.mem_cons_of_mem _ hy)
    have hmono : l.countP p ≤ l.countP q := List.countP_mono_left hl
    rw [List.countP_cons, List.countP_cons]
    rcases List.mem_cons.mp ha with rfl | ha
    · simp only [hq, hp, if_true, Bool.false_eq_true, if_false]
      omega
    · have hlt := ih hl ha
      have hx := h x (List.mem_cons_self ..)
      by_cases hpx : p x = true
      · rw [if_pos hpx, if_pos (hx hpx)]
        omega
      · rw [if_neg hpx]
        split <;> omega

/-- The admitted buffers above the bound: the rounds an overlay loop has left. -/
def pendingAbove (sel : BufHead V → Bool) (e : Nat) (bufs : List (BufHead V)) : Nat :=
  bufs.countP fun b => sel b && decide (e < b.dirtyEpoch)

/-- Each round leaves fewer rounds. -/
theorem pendingAbove_lt {e : Nat} {a : BufHead V} (h : oldestAfter sel e bufs = some a) :
    pendingAbove sel a.dirtyEpoch bufs < pendingAbove sel e bufs := by
  obtain ⟨ha, hsa, hea, -⟩ := oldestAfter_some h
  refine countP_lt_countP (fun b _ hb => ?_) ha (by simp [hsa, hea]) (by simp)
  simp only [Bool.and_eq_true, decide_eq_true_eq] at hb ⊢
  exact ⟨hb.1, Nat.lt_trans hea hb.2⟩

theorem oldestAfter_eq_none_of_pendingAbove {e : Nat} (h : pendingAbove sel e bufs = 0) :
    oldestAfter sel e bufs = none :=
  oldestAfter_eq_none.mpr fun b hb hs => by
    have := List.countP_eq_zero.mp h b hb
    simp only [hs, Bool.true_and, decide_eq_true_eq] at this
    omega

/-! ## Newest wins -/

/-- The buffers `sel` admits with an epoch in `(lo, e]`: those an overlay loop
started above `lo` has copied when its bound reaches `e`. -/
def Window (sel : BufHead V → Bool) (lo e : Nat) (b : BufHead V) : Prop :=
  sel b = true ∧ lo < b.dirtyEpoch ∧ b.dirtyEpoch ≤ e

/-- `dst'` holds, in each block `k` of the range `[blockNo, blockNo + dst.length)`, the
bytes of the newest buffer of `bufs` in `cands` that covers `k`, or those of `dst` if
none covers it. -/
def NewestWins (bufs : List (BufHead V)) (cands : BufHead V → Prop) (blockNo : Nat)
    (dst dst' : List V) : Prop :=
  dst'.length = dst.length ∧ ∀ k, blockNo ≤ k → k < blockNo + dst.length →
    (∃ a ∈ bufs, cands a ∧ a.Covers k ∧ dst'[k - blockNo]? = a.data[k - a.blockNo]? ∧
      ∀ b ∈ bufs, cands b → b.Covers k → b.dirtyEpoch ≤ a.dirtyEpoch) ∨
    ((∀ b ∈ bufs, cands b → ¬ b.Covers k) ∧ dst'[k - blockNo]? = dst[k - blockNo]?)

theorem newestWins_self {cands : BufHead V → Prop} {blockNo : Nat} {dst : List V}
    (h : ∀ b ∈ bufs, ¬ cands b) : NewestWins bufs cands blockNo dst dst :=
  ⟨rfl, fun _ _ _ => Or.inr ⟨fun b hb hc => absurd hc (h b hb), rfl⟩⟩

theorem NewestWins.congr {cands cands' : BufHead V → Prop} {blockNo : Nat} {dst dst' : List V}
    (hw : NewestWins bufs cands blockNo dst dst') (h : ∀ b ∈ bufs, cands b ↔ cands' b) :
    NewestWins bufs cands' blockNo dst dst' := by
  refine ⟨hw.1, fun k hk hk' => ?_⟩
  rcases hw.2 k hk hk' with ⟨a, ha, hca, hcov, hv, hmax⟩ | ⟨hnone, hv⟩
  · exact Or.inl ⟨a, ha, (h a ha).mp hca, hcov, hv,
      fun b hb hcb hbk => hmax b hb ((h b hb).mpr hcb) hbk⟩
  · exact Or.inr ⟨fun b hb hcb => hnone b hb ((h b hb).mpr hcb), hv⟩

@[simp] theorem length_overlayAlias [Inhabited V] (a : BufHead V) (blockNo : Nat) (dst : List V) :
    (overlayAlias a blockNo dst).length = dst.length :=
  List.length_mapIdx

theorem overlayAlias_of_covers [Inhabited V] {a : BufHead V} {blockNo k : Nat} {dst : List V}
    (hk : blockNo ≤ k) (hk' : k < blockNo + dst.length) (ha : a.Covers k) :
    (overlayAlias a blockNo dst)[k - blockNo]? = a.data[k - a.blockNo]? := by
  have hi : k - blockNo < dst.length := by omega
  have ha' : a.blockNo ≤ k ∧ k < a.blockNo + a.count := ha
  have hj : k - a.blockNo < a.data.length := by
    have := ha'.2
    simp only [BufHead.count] at this
    omega
  simp only [overlayAlias, List.getElem?_mapIdx, List.getElem?_eq_getElem hi, Option.map_some,
    Nat.add_sub_cancel' hk]
  rw [if_pos ha', List.getD_eq_getElem _ _ hj, List.getElem?_eq_getElem hj]

theorem overlayAlias_of_not_covers [Inhabited V] {a : BufHead V} {blockNo k : Nat} {dst : List V}
    (hk : blockNo ≤ k) (ha : ¬ a.Covers k) :
    (overlayAlias a blockNo dst)[k - blockNo]? = dst[k - blockNo]? := by
  have ha' : ¬ (a.blockNo ≤ k ∧ k < a.blockNo + a.count) := ha
  simp only [overlayAlias, List.getElem?_mapIdx, Nat.add_sub_cancel' hk, ha', if_false, Option.map_id']

/-- **One round of the overlay.**  After the copies of every admitted buffer with an
epoch in `(lo, e]`, the copy of the oldest admitted buffer above `e` gives the state
after every copy with an epoch in `(lo, a.dirtyEpoch]`: no admitted buffer lies
strictly between, and with distinct epochs `a` is the only one at its own epoch. -/
theorem NewestWins.overlay_step [Inhabited V] (hd : EpochsDistinct bufs) {lo e blockNo : Nat}
    {dst dst' : List V} {a : BufHead V} (hw : NewestWins bufs (Window sel lo e) blockNo dst dst')
    (ha : oldestAfter sel e bufs = some a) (hle : lo ≤ e) :
    NewestWins bufs (Window sel lo a.dirtyEpoch) blockNo dst (overlayAlias a blockNo dst') := by
  obtain ⟨hamem, hsa, hea, hmin⟩ := oldestAfter_some ha
  have hsplit : ∀ b ∈ bufs, Window sel lo a.dirtyEpoch b → Window sel lo e b ∨ b = a := by
    rintro b hb ⟨hsb, hlo, hba⟩
    rcases Nat.lt_or_ge e b.dirtyEpoch with heb | heb
    · have := hmin b hb hsb heb
      exact Or.inr (hd b hb a hamem (by omega) (by omega))
    · exact Or.inl ⟨hsb, hlo, heb⟩
  have hwin : Window sel lo a.dirtyEpoch a := ⟨hsa, by omega, Nat.le_refl _⟩
  refine ⟨by rw [length_overlayAlias, hw.1], fun k hk hk' => ?_⟩
  by_cases hak : a.Covers k
  · refine Or.inl ⟨a, hamem, hwin, hak, overlayAlias_of_covers hk (hw.1 ▸ hk') hak,
      fun b _ hb _ => hb.2.2⟩
  · rw [overlayAlias_of_not_covers hk hak]
    rcases hw.2 k hk hk' with ⟨a₁, ha₁, hc₁, hcov₁, hv₁, hmax₁⟩ | ⟨hnone, hv⟩
    · refine Or.inl ⟨a₁, ha₁, ⟨hc₁.1, hc₁.2.1, Nat.le_trans hc₁.2.2 (Nat.le_of_lt hea)⟩, hcov₁, hv₁,
        fun b hb hcb hbk => ?_⟩
      rcases hsplit b hb hcb with hold | rfl
      · exact hmax₁ b hb hold hbk
      · exact absurd hbk hak
    · refine Or.inr ⟨fun b hb hcb hbk => ?_, hv⟩
      rcases hsplit b hb hcb with hold | rfl
      · exact hnone b hb hold hbk
      · exact hak hbk

/-- **The overlay loop puts the newest admitted bytes on top**, given enough fuel for
the rounds left. -/
theorem overlayLoop_newestWins [Inhabited V] (hd : EpochsDistinct bufs) {lo blockNo : Nat}
    {dst : List V} :
    ∀ (fuel e : Nat) (dst' : List V), pendingAbove sel e bufs ≤ fuel → lo ≤ e →
      NewestWins bufs (Window sel lo e) blockNo dst dst' →
      NewestWins bufs (fun b => sel b = true ∧ lo < b.dirtyEpoch) blockNo dst
        (overlayLoop bufs sel blockNo fuel e dst')
  | fuel, e, dst', hfuel, hle, hw => by
    have hdone : oldestAfter sel e bufs = none →
        NewestWins bufs (fun b => sel b = true ∧ lo < b.dirtyEpoch) blockNo dst dst' := by
      intro hnone
      refine hw.congr fun b hb => ⟨fun h => ⟨h.1, h.2.1⟩, fun h => ⟨h.1, h.2, ?_⟩⟩
      exact Nat.le_of_not_lt fun heb => absurd (oldestAfter_eq_none.mp hnone b hb h.1) (by omega)
    cases fuel with
    | zero => exact hdone (oldestAfter_eq_none_of_pendingAbove (Nat.le_zero.mp hfuel))
    | succ fuel =>
      simp only [overlayLoop]
      split
      · exact hdone ‹_›
      · rename_i a ha
        have hlt := pendingAbove_lt ha
        have hea := (oldestAfter_some ha).2.2.1
        exact overlayLoop_newestWins hd fuel a.dirtyEpoch _ (by omega) (by omega)
          (hw.overlay_step hd ha hle)

/-- **The overlay loop ends by itself**: once the fuel covers the rounds left, more
fuel changes nothing. -/
theorem overlayLoop_fuel_eq [Inhabited V] {blockNo : Nat} :
    ∀ (fuel fuel' e : Nat) (dst : List V), pendingAbove sel e bufs ≤ fuel → pendingAbove sel e bufs ≤ fuel' →
      overlayLoop bufs sel blockNo fuel e dst = overlayLoop bufs sel blockNo fuel' e dst
  | 0, fuel', e, dst, h, _ => by
    rw [overlayLoop_of_none fuel' dst (oldestAfter_eq_none_of_pendingAbove (Nat.le_zero.mp h))]
    rfl
  | fuel + 1, 0, e, dst, _, h' => by
    rw [overlayLoop_of_none (fuel + 1) dst (oldestAfter_eq_none_of_pendingAbove (Nat.le_zero.mp h'))]
    rfl
  | fuel + 1, fuel' + 1, e, dst, h, h' => by
    simp only [overlayLoop]
    split
    · rfl
    · rename_i a ha
      have hlt := pendingAbove_lt ha
      exact overlayLoop_fuel_eq fuel fuel' a.dirtyEpoch _ (by omega) (by omega)

end Sweep

/-- **`overlay_newer_cached_range_locked`**: every block of the range holds the bytes
of the newest valid cached alias above `minEpoch` that covers it, if any. -/
theorem overlayNewer_newestWins [Inhabited V] {c : Cache V} (hd : EpochsDistinct c.buffers)
    (blockNo minEpoch : Nat) (dst : List V) :
    NewestWins c.buffers (fun b => canOverlay blockNo dst.length b = true ∧ minEpoch < b.dirtyEpoch)
      blockNo dst (overlayNewer c blockNo minEpoch dst) :=
  overlayLoop_newestWins hd _ _ _ List.countP_le_length (Nat.le_refl _)
    (newestWins_self fun _ _ hb => by have := hb.2.1; have := hb.2.2; omega)

/-- **The overlay terminates**: any fuel past the buffer count gives the model's answer. -/
theorem overlayNewer_fuel_eq [Inhabited V] (c : Cache V) (blockNo minEpoch : Nat) (dst : List V)
    (extra : Nat) :
    overlayLoop c.buffers (canOverlay blockNo dst.length) blockNo (c.buffers.length + extra) minEpoch dst =
      overlayNewer c blockNo minEpoch dst :=
  overlayLoop_fuel_eq _ _ _ _ (Nat.le_trans List.countP_le_length (Nat.le_add_right _ _))
    List.countP_le_length

end Wos.BufferCache
