import WosKernel.WkiChannel

/-! # The reorder window of a WKI channel

The receive half of a channel buffers reliable frames that arrive ahead of
`rx_seq` in the reorder list, sorted by sequence number with the wrap-around
comparator `seq_before`.  That comparator is an order only inside half the
counter space, so the list is kept sorted by how far each frame lies ahead of
`rx_seq` (`offset`), and every frame lies at most the channel's reorder limit
ahead (`AheadWithin`).  The insertion admits a frame only within the limit and
only if it is not yet buffered, consuming `rx_seq` moves the window forward by
one, and a frame left behind by that move is the first `drop_stale` removes.

`RxInv` adds that `reorder_count` is the list's length, within the limit, and
that `rx_credits` is what `refresh_rx_credits` computes from it.  Every receive
operation keeps `RxInv` (`RxInv.rxReliable` and its neighbours), so every state
reached from `channel_init` does (`reorder_window_invariant`).
-/

namespace Wos.Wki
open SerialNumber

theorem reorderLimitForChannel_le (channelId : UInt16) :
    (reorderLimitForChannel channelId).toNat ≤ 1024 := by
  unfold reorderLimitForChannel
  split_ifs <;> decide

theorem reorderLimitForChannel_lt (channelId : UInt16) :
    (reorderLimitForChannel channelId).toNat < 2 ^ 31 :=
  Nat.lt_of_le_of_lt (reorderLimitForChannel_le channelId) (by norm_num)

/-! ## Frames within a window ahead of a base -/

/-- The frames of `l` lie at most `L` ahead of `base`, in strictly increasing
order of how far ahead. -/
structure AheadWithin (base : UInt32) (L : Nat) (l : List Frame) : Prop where
  sorted : l.Pairwise (fun a b => offset base a.seq < offset base b.seq)
  le : ∀ e ∈ l, offset base e.seq ≤ L

namespace AheadWithin
variable {base : UInt32} {L : Nat}

theorem nil : AheadWithin base L [] := ⟨List.Pairwise.nil, by simp⟩

theorem sublist {l l' : List Frame} (h : AheadWithin base L l) (hs : List.Sublist l' l) :
    AheadWithin base L l' :=
  ⟨h.sorted.sublist hs, fun e he => h.le e (hs.subset he)⟩

/-- Moving the base `k` forward keeps the window of frames that all lie at least `k`
ahead. -/
theorem shift {l : List Frame} {k : Nat} (h : AheadWithin base L l)
    (hk : ∀ e ∈ l, k ≤ offset base e.seq) : AheadWithin (base + UInt32.ofNat k) L l := by
  refine ⟨h.sorted.imp_of_mem ?_, ?_⟩
  · intro a b ha hb hab
    rw [offset_add_ofNat (hk a ha), offset_add_ofNat (hk b hb)]
    have := hk a ha
    omega
  · intro e he
    rw [offset_add_ofNat (hk e he)]
    have := h.le e he
    omega

/-- Under the limit, seen from its own base, no frame of the window is stale. -/
theorem not_before {l : List Frame} (h : AheadWithin base L l) (hL : L < 2 ^ 31) :
    ∀ e ∈ l, seqBefore e.seq base = false := by
  intro e he
  have := h.le e he
  simp only [seqBefore, decide_eq_false_iff_not, precedes_base_iff]
  omega

/-- Serial order between two frames of the window is the order of their offsets. -/
theorem seqBefore_iff {l : List Frame} (h : AheadWithin base L l) (hL : L < 2 ^ 31)
    {a b : Frame} (ha : a ∈ l) (hb : b ∈ l) :
    seqBefore a.seq b.seq = true ↔ offset base a.seq < offset base b.seq := by
  have := h.le a ha
  have := h.le b hb
  rw [seqBefore, decide_eq_true_iff, @precedes_iff_offset_lt base _ _ (by omega) (by omega)]

end AheadWithin

/-! ## Dropping stale frames -/

theorem dropStale_sublist (rxSeq : UInt32) (l : List Frame) : List.Sublist (dropStale rxSeq l).1 l := by
  induction l with
  | nil => exact List.Sublist.slnil
  | cons f rest ih =>
    unfold dropStale
    split
    · exact ih.cons f
    · exact List.Sublist.refl _

/-- The frames dropped and the frames kept make up the list. -/
theorem dropStale_count (rxSeq : UInt32) (l : List Frame) :
    (dropStale rxSeq l).2 + (dropStale rxSeq l).1.length = l.length := by
  induction l with
  | nil => rfl
  | cons f rest ih =>
    unfold dropStale
    split
    · simp only [List.length_cons]
      omega
    · simp

theorem dropStale_fst_of_snd_eq_zero {rxSeq : UInt32} {l : List Frame}
    (h : (dropStale rxSeq l).2 = 0) : (dropStale rxSeq l).1 = l := by
  cases l with
  | nil => rfl
  | cons f rest =>
    unfold dropStale at h ⊢
    split at h
    · simp at h
    · rename_i hf
      simp [hf]

/-- A list whose head is not stale is kept whole. -/
theorem dropStale_cons_of_not_before {rxSeq : UInt32} {f : Frame} {rest : List Frame}
    (hf : seqBefore f.seq rxSeq = false) : dropStale rxSeq (f :: rest) = (f :: rest, 0) := by
  simp [dropStale, hf]

namespace AheadWithin
variable {base : UInt32} {L : Nat}

/-- Seen from its own base, the window has nothing stale. -/
theorem dropStale_eq {l : List Frame} (h : AheadWithin base L l) (hL : L < 2 ^ 31) :
    dropStale base l = (l, 0) := by
  cases l with
  | nil => rfl
  | cons f rest => exact dropStale_cons_of_not_before (h.not_before hL f List.mem_cons_self)

/-- Dropping what is stale at `base + k` keeps only frames at least `k` ahead of
`base`: the list is sorted, so the first frame that is not stale is followed by
frames further ahead. -/
theorem le_offset_of_mem_dropStale {l : List Frame} {k : Nat} (h : AheadWithin base L l)
    (hL : L < 2 ^ 31) (hk : k ≤ 2 ^ 31) :
    ∀ e ∈ (dropStale (base + UInt32.ofNat k) l).1, k ≤ offset base e.seq := by
  induction l with
  | nil => simp [dropStale]
  | cons f rest ih =>
    have hrest : AheadWithin base L rest := h.sublist (List.sublist_cons_self f rest)
    obtain ⟨hf, hsorted⟩ := List.pairwise_cons.mp h.sorted
    have hfL := h.le f List.mem_cons_self
    unfold dropStale
    split
    · exact ih hrest
    · rename_i hnot
      have hkf : k ≤ offset base f.seq := by
        simp only [seqBefore, decide_eq_true_eq, precedes_add_ofNat_iff (by omega : offset base f.seq < 2 ^ 31) hk] at hnot
        omega
      intro e he
      rcases List.mem_cons.mp he with rfl | he
      · exact hkf
      · exact Nat.le_of_lt (Nat.lt_of_le_of_lt hkf (hf e he))

/-- **Dropping stale frames after the base moved `k` forward keeps a window at the
new base.** -/
theorem dropStale_shift {l : List Frame} {k : Nat} (h : AheadWithin base L l)
    (hL : L < 2 ^ 31) (hk : k ≤ 2 ^ 31) :
    AheadWithin (base + UInt32.ofNat k) L (dropStale (base + UInt32.ofNat k) l).1 :=
  (h.sublist (dropStale_sublist _ l)).shift (h.le_offset_of_mem_dropStale hL hk)

end AheadWithin

/-! ## Sorted insertion -/

theorem insertSorted_perm (f : Frame) (l : List Frame) : (insertSorted f l).Perm (f :: l) := by
  induction l with
  | nil => exact List.Perm.refl _
  | cons g rest ih =>
    unfold insertSorted
    split
    · exact (ih.cons g).trans (List.Perm.swap f g rest)
    · exact List.Perm.refl _

theorem mem_insertSorted {f e : Frame} {l : List Frame} : e ∈ insertSorted f l ↔ e = f ∨ e ∈ l := by
  rw [(insertSorted_perm f l).mem_iff, List.mem_cons]

@[simp] theorem length_insertSorted (f : Frame) (l : List Frame) :
    (insertSorted f l).length = l.length + 1 := by
  rw [(insertSorted_perm f l).length_eq, List.length_cons]

/-- **Inserting a frame that is within the limit and not yet buffered keeps the
window.** -/
theorem AheadWithin.insertSorted {base : UInt32} {L : Nat} {l : List Frame} {f : Frame}
    (h : AheadWithin base L l) (hL : L < 2 ^ 31) (hf : offset base f.seq ≤ L)
    (hnew : ∀ e ∈ l, e.seq ≠ f.seq) : AheadWithin base L (Wki.insertSorted f l) := by
  induction l with
  | nil => exact ⟨List.pairwise_singleton _ _, by simp [Wki.insertSorted, hf]⟩
  | cons g rest ih =>
    have hrest : AheadWithin base L rest := h.sublist (List.sublist_cons_self g rest)
    obtain ⟨hg, hsorted⟩ := List.pairwise_cons.mp h.sorted
    have hgL := h.le g List.mem_cons_self
    have hcmp : seqBefore g.seq f.seq = true ↔ offset base g.seq < offset base f.seq := by
      rw [seqBefore, decide_eq_true_iff, @precedes_iff_offset_lt base _ _ (by omega) (by omega)]
    unfold Wki.insertSorted
    by_cases hb : seqBefore g.seq f.seq = true
    · rw [if_pos hb]
      have hins := ih hrest (fun e he => hnew e (List.mem_cons_of_mem g he))
      refine ⟨List.pairwise_cons.mpr ⟨?_, hins.sorted⟩, ?_⟩
      · intro e he
        rcases mem_insertSorted.mp he with rfl | he
        · exact hcmp.mp hb
        · exact hg e he
      · intro e he
        rcases List.mem_cons.mp he with rfl | he
        · exact hgL
        · exact hins.le e he
    · rw [if_neg hb]
      have hne : offset base g.seq ≠ offset base f.seq := fun heq =>
        hnew g List.mem_cons_self (offset_injective base heq)
      have hlt : offset base f.seq < offset base g.seq := by
        rw [hcmp] at hb
        omega
      refine ⟨List.pairwise_cons.mpr ⟨?_, h.sorted⟩, ?_⟩
      · intro e he
        rcases List.mem_cons.mp he with rfl | he
        · exact hlt
        · exact Nat.lt_trans hlt (hg e he)
      · intro e he
        rcases List.mem_cons.mp he with rfl | he
        · exact hf
        · exact h.le e he

/-! ## The invariant of the receive half -/

/-- What the receive half of a channel keeps: the reorder list is a window of the
channel's reorder limit ahead of `rx_seq`, `reorder_count` is its length and within
the limit, and `rx_credits` is what `refresh_rx_credits` computes. -/
structure RxInv (ch : WkiChannel) : Prop where
  window : AheadWithin ch.rxSeq (reorderLimitForChannel ch.channelId).toNat ch.reorder
  count_eq : ch.reorderCount.toNat = ch.reorder.length
  count_le : ch.reorder.length ≤ (reorderLimitForChannel ch.channelId).toNat
  credits_eq : ch.rxCredits = (refreshRxCredits ch).rxCredits

namespace RxInv

/-- `refresh_rx_credits` establishes the credit part of the invariant. -/
theorem of_refresh {ch : WkiChannel}
    (hw : AheadWithin ch.rxSeq (reorderLimitForChannel ch.channelId).toNat ch.reorder)
    (hc : ch.reorderCount.toNat = ch.reorder.length)
    (hle : ch.reorder.length ≤ (reorderLimitForChannel ch.channelId).toNat) :
    RxInv (refreshRxCredits ch) :=
  ⟨hw, hc, hle, rfl⟩

/-- An empty reorder list with the default credits satisfies the invariant at any
`rx_seq`. -/
theorem of_empty {ch : WkiChannel} (hr : ch.reorder = []) (hc : ch.reorderCount = 0)
    (hcr : ch.rxCredits = defaultCreditsForChannel ch.channelId) : RxInv ch where
  window := hr ▸ AheadWithin.nil
  count_eq := by simp [hr, hc]
  count_le := by simp [hr]
  credits_eq := by
    have hmin : min (0 : UInt32) (defaultCreditsForChannel ch.channelId).toUInt32 = 0 :=
      if_pos UInt32.zero_le
    simp only [refreshRxCredits, hc, hcr, hmin]
    simp

theorem channelInit (slot : WkiChannel) (channelId : UInt16) :
    RxInv (Wki.channelInit slot channelId (defaultCreditsForChannel channelId)) :=
  of_empty rfl rfl rfl

theorem wkiChannelReset (ch : WkiChannel) : RxInv (Wki.wkiChannelReset ch) :=
  of_empty rfl rfl rfl

variable {ch : WkiChannel} (h : RxInv ch)
include h

/-- A channel that keeps the invariant has nothing stale to drop. -/
theorem dropStaleReorderEntries_eq : dropStaleReorderEntries ch = (ch, false) := by
  unfold dropStaleReorderEntries
  rw [h.window.dropStale_eq (reorderLimitForChannel_lt _)]
  rfl

theorem timerTickReceive_eq : timerTickReceive ch = ch := by
  unfold timerTickReceive
  rw [h.dropStaleReorderEntries_eq]
  rfl

theorem completeAckTransmit (ackNum : UInt32) : RxInv (Wki.completeAckTransmit ch ackNum) := by
  unfold Wki.completeAckTransmit
  split
  · exact ⟨h.window, h.count_eq, h.count_le, h.credits_eq⟩
  · exact h

/-- **Consuming the in-order frame and dropping what is then stale keeps the
invariant.**  The window moves forward by one; a frame at `rx_seq` falls behind it
and is the one dropped. -/
theorem dropStale_consumeFrame (f : Frame) :
    RxInv (dropStaleReorderEntries (consumeFrame ch f)).1 := by
  have hL := reorderLimitForChannel_lt ch.channelId
  have hL' := reorderLimitForChannel_le ch.channelId
  have hc := h.count_eq
  have hle := h.count_le
  have hseq : (consumeFrame ch f).rxSeq = ch.rxSeq + UInt32.ofNat 1 := rfl
  have hreorder : (consumeFrame ch f).reorder = ch.reorder := rfl
  unfold dropStaleReorderEntries
  dsimp only
  rw [hseq, hreorder]
  set r := dropStale (ch.rxSeq + UInt32.ofNat 1) ch.reorder with hr
  have hw : AheadWithin (ch.rxSeq + UInt32.ofNat 1) _ r.1 := h.window.dropStale_shift hL (by norm_num)
  have hcount : r.2 + r.1.length = ch.reorder.length := dropStale_count _ _
  split
  · rename_i h0
    have hkeep : r.1 = ch.reorder := dropStale_fst_of_snd_eq_zero h0
    exact ⟨hkeep ▸ hw, h.count_eq, h.count_le, h.credits_eq⟩
  · refine of_refresh hw ?_ (by show r.1.length ≤ (reorderLimitForChannel ch.channelId).toNat; omega)
    show (UInt32.ofNat (ch.reorderCount.toNat - r.2)).toNat = r.1.length
    rw [UInt32.toNat_ofNat', Nat.mod_eq_of_lt (by omega)]
    omega

/-- One round of the drain loop keeps the invariant: the head is at `rx_seq`, so the
rest lies at least one ahead and stays a window when `rx_seq` moves past the head. -/
theorem consumeBuffered {ro : Frame} {rest : List Frame} (hro : ch.reorder = ro :: rest)
    (hseq : ro.seq = ch.rxSeq) : RxInv (Wki.consumeBuffered ch ro rest) := by
  have hw : AheadWithin ch.rxSeq _ (ro :: rest) := hro ▸ h.window
  obtain ⟨hhead, _⟩ := List.pairwise_cons.mp hw.sorted
  rw [hseq, offset_self] at hhead
  have hrest := (hw.sublist (List.sublist_cons_self ro rest)).shift (k := 1)
    (fun e he => hhead e he)
  have hc := h.count_eq
  rw [hro, List.length_cons] at hc
  have hle := h.count_le
  rw [hro, List.length_cons] at hle
  refine ⟨hrest, ?_, by simp only [Wki.consumeBuffered, consumeFrame, refreshRxCredits]; omega, rfl⟩
  show (ch.reorderCount - 1).toNat = rest.length
  rw [UInt32.toNat_sub_of_le _ _ (UInt32.le_iff_toNat_le.mpr (by simp; omega))]
  simp
  omega

theorem setAckPending : RxInv { ch with ackPending := true } :=
  ⟨h.window, h.count_eq, h.count_le, h.credits_eq⟩

end RxInv

theorem RxInv.drainReorder (budget : Nat) {ch : WkiChannel} (h : RxInv ch) :
    RxInv (Wki.drainReorder budget ch).1 := by
  induction budget generalizing ch with
  | zero => exact h
  | succ budget ih =>
    unfold Wki.drainReorder
    split
    · exact h
    · rename_i ro rest hro
      split
      · rename_i hseq
        exact ih (h.consumeBuffered hro (beq_iff_eq.mp hseq))
      · exact h

namespace RxInv
variable {ch : WkiChannel} (h : RxInv ch)
include h

theorem consumeInOrder (f : Frame) (budget : Nat) : RxInv (Wki.consumeInOrder ch f budget).1 := by
  have hd := h.dropStale_consumeFrame f
  apply RxInv.drainReorder
  split
  · exact hd.setAckPending
  · exact hd

/-- **Buffering an early frame keeps the invariant**: the insertion is guarded by
the frame not being buffered yet, by its distance from `rx_seq` and by the count,
all against the channel's reorder limit. -/
theorem bufferOutOfOrder (f : Frame) (alloc : Bool) : RxInv (Wki.bufferOutOfOrder ch f alloc) := by
  have hL := reorderLimitForChannel_lt ch.channelId
  have hL' := reorderLimitForChannel_le ch.channelId
  unfold Wki.bufferOutOfOrder
  rw [h.dropStaleReorderEntries_eq]
  dsimp only
  split
  · rename_i hc
    simp only [Bool.and_eq_true, Bool.not_eq_true', List.any_eq_false, beq_iff_eq,
      decide_eq_true_eq] at hc
    obtain ⟨⟨⟨hnew, hdist⟩, hcount⟩, -⟩ := hc
    rw [UInt32.le_iff_toNat_le, UInt16.toNat_toUInt32] at hdist
    rw [UInt32.lt_iff_toNat_lt, UInt16.toNat_toUInt32] at hcount
    apply setAckPending
    refine of_refresh (h.window.insertSorted hL hdist hnew) ?_ ?_
    · show (ch.reorderCount + 1).toNat = (Wki.insertSorted f ch.reorder).length
      rw [UInt32.toNat_add, length_insertSorted, ← h.count_eq]
      simp only [UInt32.toNat_one]
      omega
    · show (Wki.insertSorted f ch.reorder).length ≤ (reorderLimitForChannel ch.channelId).toNat
      rw [length_insertSorted, ← h.count_eq]
      omega
  · exact h.setAckPending

/-- The reconnect resync only fires on an empty reorder list, so moving `rx_seq` to
the frame's number keeps the invariant. -/
theorem resync {f : Frame} (hfire : resyncFires ch f = true) : RxInv { ch with rxSeq := f.seq } := by
  have hempty : ch.reorder = [] := by
    simp only [resyncFires, Bool.and_eq_true, List.isEmpty_iff] at hfire
    exact hfire.1.2
  exact ⟨hempty ▸ AheadWithin.nil, h.count_eq, h.count_le, h.credits_eq⟩

/-- **The reliable branch of `wki_rx` keeps the invariant**, in each of its four
cases: an in-order frame consumed or refused, an early frame buffered, an old one
discarded. -/
theorem rxReliable (f : Frame) (env : RxEnv) : RxInv (Wki.rxReliable ch f env).1 := by
  have h₁ : RxInv (if resyncFires ch f then { ch with rxSeq := f.seq } else ch) := by
    split
    · exact h.resync ‹_›
    · exact h
  have hcases : ∀ ch₂ : WkiChannel, RxInv ch₂ →
      RxInv (if f.seq == ch₂.rxSeq then
          (if env.accepted then Wki.consumeInOrder ch₂ f env.drainBudget else (ch₂, []))
        else if seqAfter f.seq ch₂.rxSeq then (Wki.bufferOutOfOrder ch₂ f env.alloc, [])
        else ({ (dropStaleReorderEntries ch₂).1 with ackPending := true }, [])).1 := by
    intro ch₂ h₂
    split
    · split
      · exact h₂.consumeInOrder f env.drainBudget
      · exact h₂
    · split
      · exact h₂.bufferOutOfOrder f env.alloc
      · rw [h₂.dropStaleReorderEntries_eq]
        exact h₂.setAckPending
  exact hcases _ ⟨h₁.window, h₁.count_eq, h₁.count_le, h₁.credits_eq⟩

end RxInv

/-! ## Every reachable state -/

/-- What happens to the receive half of a channel. -/
inductive RxOp where
  /-- `channel_init` on the channel's pool slot, with the credits every allocation
  path passes: `default_credits_for_channel` in `wki_channel_get`, and
  `WKI_CREDITS_DYNAMIC`, the default of every dynamic id, in `wki_channel_alloc` and
  `wki_channel_reserve`. -/
  | init (channelId : UInt16)
  /-- `wki_channel_reset`. -/
  | reset
  /-- The reliable branch of `wki_rx` for one frame. -/
  | rx (f : Frame) (env : RxEnv)
  /-- `drop_stale_reorder_entries_locked` on its own. -/
  | dropStale
  /-- `wki_timer_tick_single`, or the per-channel round of `wki_timer_tick`. -/
  | tick
  /-- The cumulative ACK `ackNum` went out. -/
  | ackSent (ackNum : UInt32)
deriving DecidableEq, Repr

def RxOp.apply : RxOp → WkiChannel → WkiChannel
  | .init channelId, ch => channelInit ch channelId (defaultCreditsForChannel channelId)
  | .reset, ch => wkiChannelReset ch
  | .rx f env, ch => (rxReliable ch f env).1
  | .dropStale, ch => (dropStaleReorderEntries ch).1
  | .tick, ch => timerTickReceive ch
  | .ackSent ackNum, ch => completeAckTransmit ch ackNum

/-- The channel after the operations `ops`, in turn. -/
def RxOp.run (ch : WkiChannel) (ops : List RxOp) : WkiChannel :=
  ops.foldl (fun ch op => op.apply ch) ch

theorem RxInv.apply {ch : WkiChannel} (h : RxInv ch) : ∀ op : RxOp, RxInv (op.apply ch)
  | .init channelId => RxInv.channelInit ch channelId
  | .reset => RxInv.wkiChannelReset ch
  | .rx f env => h.rxReliable f env
  | .dropStale => by rw [RxOp.apply, h.dropStaleReorderEntries_eq]; exact h
  | .tick => by rw [RxOp.apply, h.timerTickReceive_eq]; exact h
  | .ackSent ackNum => h.completeAckTransmit ackNum

theorem RxInv.run {ch : WkiChannel} (h : RxInv ch) (ops : List RxOp) : RxInv (RxOp.run ch ops) := by
  induction ops generalizing ch with
  | nil => exact h
  | cons op ops ih => exact ih (h.apply op)

/-! ## The invariant in the code's terms -/

/-- `refresh_rx_credits` grants the default less the buffered frames, capped at
the default. -/
theorem toNat_refreshRxCredits (ch : WkiChannel) :
    (refreshRxCredits ch).rxCredits.toNat =
      (defaultCreditsForChannel ch.channelId).toNat -
        min ch.reorderCount.toNat (defaultCreditsForChannel ch.channelId).toNat := by
  have hd := defaultCreditsForChannel_le ch.channelId
  have hmin : (min ch.reorderCount (defaultCreditsForChannel ch.channelId).toUInt32).toNat =
      min ch.reorderCount.toNat (defaultCreditsForChannel ch.channelId).toNat := by
    rw [toNat_min, UInt16.toNat_toUInt32]
  have hle : min ch.reorderCount.toNat (defaultCreditsForChannel ch.channelId).toNat ≤
      (defaultCreditsForChannel ch.channelId).toNat := Nat.min_le_right _ _
  unfold refreshRxCredits
  dsimp only
  rw [UInt16.toNat_sub_of_le]
  · rw [UInt32.toNat_toUInt16, hmin, Nat.mod_eq_of_lt (by omega)]
  · rw [UInt16.le_iff_toNat_le, UInt32.toNat_toUInt16, hmin, Nat.mod_eq_of_lt (by omega)]
    exact hle

theorem reorder_window_invariant (slot : WkiChannel) (channelId : UInt16) (ops : List RxOp) :
    let ch := RxOp.run (channelInit slot channelId (defaultCreditsForChannel channelId)) ops
    ch.reorder.IsChain (fun a b => seqBefore a.seq b.seq = true) ∧
      (ch.reorder.map (·.seq)).Nodup ∧
      (∀ e ∈ ch.reorder, -2 ^ 31 < (e.seq - ch.rxSeq).toInt32.toInt ∧
        (e.seq - ch.rxSeq).toInt32.toInt ≤ (reorderLimitForChannel ch.channelId).toNat) ∧
      ch.reorderCount.toNat = ch.reorder.length ∧
      ch.reorderCount.toNat ≤ (reorderLimitForChannel ch.channelId).toNat ∧
      ch.rxCredits.toNat = (defaultCreditsForChannel ch.channelId).toNat -
        min ch.reorderCount.toNat (defaultCreditsForChannel ch.channelId).toNat := by
  intro ch
  have h : RxInv ch := (RxInv.channelInit slot channelId).run ops
  have hL := reorderLimitForChannel_lt ch.channelId
  refine ⟨?_, ?_, ?_, h.count_eq, h.count_eq ▸ h.count_le, ?_⟩
  · refine (h.window.sorted.imp_of_mem ?_).isChain
    intro a b ha hb hab
    exact (h.window.seqBefore_iff hL ha hb).mpr hab
  · refine List.pairwise_map.mpr (h.window.sorted.imp fun hab heq => ?_)
    rw [heq] at hab
    exact Nat.lt_irrefl _ hab
  · intro e he
    have hle := h.window.le e he
    rw [toInt_toInt32_sub (by omega)]
    constructor <;> omega
  · rw [h.credits_eq, toNat_refreshRxCredits]

end Wos.Wki
