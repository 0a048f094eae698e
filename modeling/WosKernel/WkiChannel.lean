import WosKernel.SerialNumber

/-! # A WKI channel and its reliable-delivery operations

Every peer and channel of WKI has one `WkiChannel` (`wki.hpp`).  Its send half
numbers reliable frames with `tx_seq`, keeps a copy of each frame until the peer
acknowledges it (the retransmit list) and spends credits; its receive half consumes
frames in sequence order (`rx_seq`), buffers frames that arrive early in a list
sorted by sequence number (the reorder list), and records the cumulative
acknowledgement it owes the peer (`rx_ack_pending`).

This module transcribes, from `wki.cpp` and `channel.cpp`, what the reliable path
does to one channel:

* `channelInit` (`channel_init`), `wkiSend` (the commit of `wki_send_impl`);
* `processAck` (the piggybacked/pure ACK branch of `wki_rx`), with its release loop
  `releaseAcked` and `refreshTxCreditsFromAdvertisement`;
* `rxReliable` (the reliable branch of `wki_rx`): the reconnect resync, the
  in-order consume with `dropStaleReorderEntries` and the drain loop
  `drainReorder`, the sorted buffering `insertSorted` of an early frame, and the
  discard of an old one;
* `completeAckTransmit` and the receive half of `wki_timer_tick_single`.

A frame is its sequence number and payload length.  Time (RTO, RTT samples,
deadlines), payload bytes, retry counters and the dispatch of consumed frames to
their handlers do not take part and are left out.  What the admission checks of
the receive path decide is an input (`RxEnv`).
-/

namespace Wos.Wki
open SerialNumber

/-! ## Constants (`wire.hpp`, `wki.hpp`) -/

/-- `WKI_ACK_NONE`: the cumulative ACK before the first consumed frame.  Its
successor wraps to the initial `tx_ack`. -/
def ackNone : UInt32 := 0xFFFFFFFF

/-- `WKI_FAST_RETRANSMIT_THRESH`. -/
def fastRetransmitThresh : UInt8 := 3

def chanControl : UInt16 := 0
def chanZoneMgmt : UInt16 := 1
def chanEventBus : UInt16 := 2
def chanResource : UInt16 := 3
/-- `WKI_CHAN_IPC_DATA = WKI_CHAN_DYNAMIC_RESERVED_BASE`. -/
def chanIpcData : UInt16 := 240

/-- `default_credits_for_channel`. -/
def defaultCreditsForChannel (channelId : UInt16) : UInt16 :=
  if channelId = chanControl then 64
  else if channelId = chanZoneMgmt then 32
  else if channelId = chanEventBus then 128
  else if channelId = chanResource then 32
  else if channelId = chanIpcData then 255
  else 256

/-- `reorder_limit_for_channel`. -/
def reorderLimitForChannel (channelId : UInt16) : UInt16 :=
  if channelId = chanControl then 64
  else if channelId = chanZoneMgmt then 32
  else if channelId = chanEventBus then 128
  else if channelId = chanResource then 1024
  else if channelId = chanIpcData then 255
  else 256

/-- `channel_allows_initial_resync`: every channel but IPC data may adopt the peer's
sequence baseline on its first frame. -/
def channelAllowsInitialResync (channelId : UInt16) : Bool := channelId != chanIpcData

/-- `seq_before`: `static_cast<int32_t>(a - b) < 0`. -/
def seqBefore (a b : UInt32) : Bool := decide (Precedes a b)

/-- `seq_after`. -/
def seqAfter (a b : UInt32) : Bool := seqBefore b a

/-- Within half the counter space `seq_after` is the order of positions. -/
theorem seqAfter_ofNat {m n : Nat} (h₁ : m < n + 2 ^ 31) (h₂ : n < m + 2 ^ 31) :
    seqAfter (UInt32.ofNat m) (UInt32.ofNat n) = decide (n < m) := by
  simp only [seqAfter, seqBefore, precedes_ofNat_iff h₂ h₁]

theorem toNat_min_le_right (a b : UInt32) : (min a b).toNat ≤ b.toNat := by
  show (if a ≤ b then a else b).toNat ≤ _
  split
  · rename_i h; exact UInt32.le_iff_toNat_le.mp h
  · exact Nat.le_refl _

theorem toNat_min (a b : UInt32) : (min a b).toNat = min a.toNat b.toNat := by
  show (if a ≤ b then a else b).toNat = _
  split
  · rename_i h; exact (Nat.min_eq_left (UInt32.le_iff_toNat_le.mp h)).symm
  · rename_i h
    rw [UInt32.not_le, UInt32.lt_iff_toNat_lt] at h
    exact (Nat.min_eq_right (Nat.le_of_lt h)).symm

theorem toNat_max (a b : UInt32) : (max a b).toNat = max a.toNat b.toNat := by
  show (if a ≤ b then b else a).toNat = _
  split
  · rename_i h; exact (Nat.max_eq_right (UInt32.le_iff_toNat_le.mp h)).symm
  · rename_i h
    rw [UInt32.not_le, UInt32.lt_iff_toNat_lt] at h
    exact (Nat.max_eq_left (Nat.le_of_lt h)).symm

theorem defaultCreditsForChannel_le (channelId : UInt16) :
    (defaultCreditsForChannel channelId).toNat ≤ 256 := by
  unfold defaultCreditsForChannel
  split_ifs <;> decide

/-! ## The channel -/

/-- A reliable frame: its sequence number and payload length.  Retransmit entries,
frames in flight and reorder entries all carry one. -/
structure Frame where
  seq : UInt32
  len : UInt16
deriving DecidableEq, Repr

/-- The fields of `WkiChannel` that the reliable path reads and writes. -/
structure WkiChannel where
  channelId : UInt16
  txSeq : UInt32
  txAck : UInt32
  rxSeq : UInt32
  rxAckPending : UInt32
  ackPending : Bool
  rxBaselineInitialized : Bool
  txCredits : UInt16
  rxCredits : UInt16
  /-- The retransmit list, head first. -/
  retransmit : List Frame
  retransmitCount : UInt32
  /-- The reorder list, head first. -/
  reorder : List Frame
  reorderCount : UInt32
  lastDupAck : UInt32
  dupAckCount : UInt8
  bytesReceived : UInt64
deriving DecidableEq, Repr

/-- A pool slot before its first allocation: the member initializers of
`struct WkiChannel`. -/
def WkiChannel.unallocated : WkiChannel where
  channelId := 0
  txSeq := 0
  txAck := 0
  rxSeq := 0
  rxAckPending := ackNone
  ackPending := false
  rxBaselineInitialized := false
  txCredits := 0
  rxCredits := 0
  retransmit := []
  retransmitCount := 0
  reorder := []
  reorderCount := 0
  lastDupAck := 0
  dupAckCount := 0
  bytesReceived := 0

/-- `channel_init` on a pool slot `ch`.  It resets every field of the reliable path
but `last_dup_ack`, which keeps the slot's previous value. -/
def channelInit (ch : WkiChannel) (channelId credits : UInt16) : WkiChannel :=
  { ch with
    channelId := channelId
    txSeq := 0
    txAck := 0
    rxSeq := 0
    rxBaselineInitialized := false
    rxAckPending := ackNone
    ackPending := false
    txCredits := credits
    rxCredits := credits
    retransmit := []
    retransmitCount := 0
    reorder := []
    reorderCount := 0
    dupAckCount := 0
    bytesReceived := 0 }

/-! ## The send half -/

/-- The commit of `wki_send_impl`.  Without a credit the send fails
(`WKI_ERR_NO_CREDITS`) and changes nothing; otherwise the frame, numbered `tx_seq`,
is appended to the retransmit list, `tx_seq` advances and a credit is spent. -/
def wkiSend (ch : WkiChannel) (len : UInt16) : Option WkiChannel :=
  if ch.txCredits = 0 then none
  else some { ch with
    retransmit := ch.retransmit ++ [⟨ch.txSeq, len⟩]
    retransmitCount := ch.retransmitCount + 1
    txSeq := ch.txSeq + 1
    txCredits := ch.txCredits - 1 }

/-- The release loop of the ACK path: entries leave the head of the retransmit list
while `!seq_after(head->seq + 1, tx_ack)`.  The result is the list kept and the
entries released, in order. -/
def releaseAcked (txAck : UInt32) : List Frame → List Frame × List Frame
  | [] => ([], [])
  | e :: rest =>
    if !seqAfter (e.seq + 1) txAck then
      let r := releaseAcked txAck rest
      (r.1, e :: r.2)
    else (e :: rest, [])

/-- `refresh_tx_credits_from_advertisement_locked`: the send allowance is the
advertised credit, capped at the channel default, less the frames in flight. -/
def refreshTxCreditsFromAdvertisement (ch : WkiChannel) (advertised : UInt8) : WkiChannel :=
  let maxCredits : UInt32 := (defaultCreditsForChannel ch.channelId).toUInt32
  let adv : UInt32 := min advertised.toUInt32 maxCredits
  let inFlight : UInt32 := if seqAfter ch.txSeq ch.txAck then ch.txSeq - ch.txAck else 0
  { ch with txCredits := (if adv > inFlight then adv - inFlight else 0).toUInt16 }

/-- The duplicate-ACK branch: count repeats of the same cumulative ACK; at the
threshold, a fast retransmit of the head is due and the count restarts. -/
def countDupAck (ch : WkiChannel) (ackNum : UInt32) : WkiChannel × Bool :=
  let count : UInt8 := if ch.lastDupAck == ackNum then ch.dupAckCount + 1 else 1
  if count ≥ fastRetransmitThresh then ({ ch with lastDupAck := ackNum, dupAckCount := 0 }, true)
  else ({ ch with lastDupAck := ackNum, dupAckCount := count }, false)

/-- The ACK branch of `wki_rx` for an active channel of the acknowledged peer:
the cumulative ACK `ackNum` acknowledges everything before `ackNum + 1`.  Returns
the channel, the retransmit entries released, and whether a fast retransmit of the
head is due. -/
def processAck (ch : WkiChannel) (ackNum : UInt32) (credits : UInt8) :
    WkiChannel × List Frame × Bool :=
  let ackNext := ackNum + 1
  let inWindow := !seqAfter ackNext ch.txSeq
  let r : WkiChannel × List Frame × Bool :=
    if inWindow && seqAfter ackNext ch.txAck then
      let rel := releaseAcked ackNext ch.retransmit
      ({ ch with
          txAck := ackNext
          lastDupAck := ackNum
          dupAckCount := 0
          retransmit := rel.1
          retransmitCount := ch.retransmitCount - UInt32.ofNat rel.2.length }, rel.2, false)
    else if inWindow && ackNum + 1 == ch.txAck && !ch.retransmit.isEmpty then
      let d := countDupAck ch ackNum
      (d.1, [], d.2)
    else if inWindow then ({ ch with lastDupAck := ackNum, dupAckCount := 0 }, [], false)
    else (ch, [], false)
  (if inWindow then refreshTxCreditsFromAdvertisement r.1 credits else r.1, r.2.1, r.2.2)

/-! ## The receive half -/

/-- `refresh_rx_credits`: the credits granted to the peer are the channel default
less the frames held in the reorder list. -/
def refreshRxCredits (ch : WkiChannel) : WkiChannel :=
  let maxCredits := defaultCreditsForChannel ch.channelId
  let used : UInt32 := min ch.reorderCount maxCredits.toUInt32
  { ch with rxCredits := maxCredits - used.toUInt16 }

/-- The loop of `drop_stale_reorder_entries_locked`: buffered frames leave the head
while they precede `rx_seq`.  Returns the frames kept and how many were dropped. -/
def dropStale (rxSeq : UInt32) : List Frame → List Frame × Nat
  | [] => ([], 0)
  | f :: rest =>
    if seqBefore f.seq rxSeq then
      let r := dropStale rxSeq rest
      (r.1, r.2 + 1)
    else (f :: rest, 0)

/-- `drop_stale_reorder_entries_locked`.  Each drop decrements `reorder_count`
unless it is already zero; the result says whether anything was dropped. -/
def dropStaleReorderEntries (ch : WkiChannel) : WkiChannel × Bool :=
  let r := dropStale ch.rxSeq ch.reorder
  if r.2 = 0 then (ch, false)
  else
    (refreshRxCredits { ch with
      reorder := r.1
      reorderCount := UInt32.ofNat (ch.reorderCount.toNat - r.2) }, true)

/-- The sorted insertion of the out-of-order branch: skip the entries that precede
the new frame and insert it before the first that does not. -/
def insertSorted (f : Frame) : List Frame → List Frame
  | [] => [f]
  | g :: rest => if seqBefore g.seq f.seq then g :: insertSorted f rest else f :: g :: rest

/-- Consuming frame `f`: `rx_seq` advances, the cumulative ACK becomes `f`'s number
and is pending, and the payload is counted. -/
def consumeFrame (ch : WkiChannel) (f : Frame) : WkiChannel :=
  { ch with
    rxSeq := ch.rxSeq + 1
    rxAckPending := f.seq
    ackPending := true
    bytesReceived := ch.bytesReceived + f.len.toUInt64 }

/-- One iteration of the drain loop: the head `ro` of the reorder list leaves it and
is consumed. -/
def consumeBuffered (ch : WkiChannel) (ro : Frame) (rest : List Frame) : WkiChannel :=
  consumeFrame (refreshRxCredits { ch with reorder := rest, reorderCount := ch.reorderCount - 1 }) ro

/-- The drain loop after an in-order frame.  While the head of the reorder list
carries `rx_seq`, and the admission checks of the loop pass (`budget` more times),
the head is consumed.  Returns the channel and the sequence numbers consumed. -/
def drainReorder : Nat → WkiChannel → WkiChannel × List UInt32
  | 0, ch => (ch, [])
  | budget + 1, ch =>
    match ch.reorder with
    | [] => (ch, [])
    | ro :: rest =>
      if ro.seq == ch.rxSeq then
        let r := drainReorder budget (consumeBuffered ch ro rest)
        (r.1, ro.seq :: r.2)
      else (ch, [])

/-- What the receiver's environment decides for one reliable frame: whether an
in-order frame passes its admission checks (`false` is a RETRY: the frame stays
unconsumed), how many buffered frames the drain loop admits before one of its
checks breaks it, and whether the allocation of a reorder entry succeeds. -/
structure RxEnv where
  accepted : Bool
  drainBudget : Nat
  alloc : Bool
deriving DecidableEq, Repr

/-- The reconnect resync of the reliable branch: a channel that has observed no frame
and holds no receive state adopts the sequence number of a first frame that is not
zero. -/
def resyncFires (ch : WkiChannel) (f : Frame) : Bool :=
  channelAllowsInitialResync ch.channelId && !ch.rxBaselineInitialized && ch.rxSeq == 0 &&
    ch.bytesReceived == 0 && ch.reorder.isEmpty && f.seq != 0

/-- The in-order branch: consume `f`, drop stale buffered frames, drain. -/
def consumeInOrder (ch : WkiChannel) (f : Frame) (budget : Nat) : WkiChannel × List UInt32 :=
  let d := dropStaleReorderEntries (consumeFrame ch f)
  let ch₂ := if d.2 then { d.1 with ackPending := true } else d.1
  let r := drainReorder budget ch₂
  (r.1, f.seq :: r.2)

/-- The out-of-order branch: drop stale buffered frames, then buffer `f` in order
unless it is already buffered, too far ahead, the list is full or the allocation
fails; an immediate ACK becomes pending. -/
def bufferOutOfOrder (ch : WkiChannel) (f : Frame) (alloc : Bool) : WkiChannel :=
  let ch₁ := (dropStaleReorderEntries ch).1
  let maxReorder := (reorderLimitForChannel ch₁.channelId).toUInt32
  let alreadyBuffered := ch₁.reorder.any (·.seq == f.seq)
  let ch₂ :=
    if !alreadyBuffered && f.seq - ch₁.rxSeq ≤ maxReorder && ch₁.reorderCount < maxReorder && alloc then
      refreshRxCredits { ch₁ with reorder := insertSorted f ch₁.reorder, reorderCount := ch₁.reorderCount + 1 }
    else ch₁
  { ch₂ with ackPending := true }

/-- The reliable branch of `wki_rx` for a frame `f` on an active channel of the same
generation.  Returns the channel and the sequence numbers it consumed, in order. -/
def rxReliable (ch : WkiChannel) (f : Frame) (env : RxEnv) : WkiChannel × List UInt32 :=
  let ch₁ := if resyncFires ch f then { ch with rxSeq := f.seq } else ch
  let ch₂ := { ch₁ with rxBaselineInitialized := true }
  if f.seq == ch₂.rxSeq then
    if env.accepted then consumeInOrder ch₂ f env.drainBudget else (ch₂, [])
  else if seqAfter f.seq ch₂.rxSeq then (bufferOutOfOrder ch₂ f env.alloc, [])
  else ({ (dropStaleReorderEntries ch₂).1 with ackPending := true }, [])

/-- `complete_ack_transmit_locked` after the cumulative ACK `ackNum` went out: the
pending flag clears unless frames are still buffered. -/
def completeAckTransmit (ch : WkiChannel) (ackNum : UInt32) : WkiChannel :=
  if ch.ackPending && ch.rxAckPending == ackNum && ch.reorderCount == 0 then
    { ch with ackPending := false }
  else ch

/-- The receive half of `wki_timer_tick_single`: drop stale buffered frames. -/
def timerTickReceive (ch : WkiChannel) : WkiChannel :=
  let d := dropStaleReorderEntries ch
  if d.2 then { d.1 with ackPending := true } else d.1

/-- `wki_channel_reset` (channel.cpp): free both lists and restart both halves, with
the channel's default credits (`wki_channel_default_credits`, the same table as
`default_credits_for_channel`) on both.  The channel id is kept. -/
def wkiChannelReset (ch : WkiChannel) : WkiChannel :=
  { ch with
    txSeq := 0
    txAck := 0
    rxSeq := 0
    rxBaselineInitialized := false
    rxAckPending := ackNone
    ackPending := false
    retransmit := []
    retransmitCount := 0
    reorder := []
    reorderCount := 0
    lastDupAck := 0
    dupAckCount := 0
    bytesReceived := 0
    txCredits := defaultCreditsForChannel ch.channelId
    rxCredits := defaultCreditsForChannel ch.channelId }

/-! ## What the send operations do

One lemma per send operation says what it can do; the invariants of the send half
are derived from these and never unfold the operations. -/

theorem wkiSend_spec {ch ch' : WkiChannel} {len : UInt16} (h : wkiSend ch len = some ch') :
    ch'.txSeq = ch.txSeq + 1 ∧ ch'.txAck = ch.txAck ∧
      ch'.retransmit = ch.retransmit ++ [⟨ch.txSeq, len⟩] ∧
      ch'.txCredits.toNat + 1 = ch.txCredits.toNat ∧ ch'.channelId = ch.channelId := by
  unfold wkiSend at h
  split at h
  · cases h
  · rename_i hc
    cases h
    have hpos : 0 < ch.txCredits.toNat := by
      rcases Nat.eq_zero_or_pos ch.txCredits.toNat with h0 | h0
      · exact absurd (UInt16.toNat_inj.mp (by simpa using h0)) hc
      · exact h0
    refine ⟨rfl, rfl, rfl, ?_, rfl⟩
    rw [UInt16.toNat_sub_of_le _ _ (UInt16.le_iff_toNat_le.mpr (by simpa using Nat.succ_le_of_lt hpos))]
    simp
    omega

/-- **The release loop releases exactly the entries before the acknowledged
position.** -/
theorem releaseAcked_names {l : List Frame} {lo t : Nat}
    (hl : l.map (·.seq) = names lo l.length) (h₁ : lo ≤ t) (h₂ : t ≤ lo + l.length)
    (hsmall : l.length < 2 ^ 31) :
    releaseAcked (UInt32.ofNat t) l = (l.drop (t - lo), l.take (t - lo)) := by
  induction l generalizing lo with
  | nil =>
    have : t - lo = 0 := by simp at h₂; omega
    simp [releaseAcked, this]
  | cons e rest ih =>
    rw [List.map_cons, List.length_cons, names_succ] at hl
    obtain ⟨he, hrest⟩ := List.cons.inj hl
    simp only [List.length_cons] at h₂ hsmall
    have hafter : seqAfter (e.seq + 1) (UInt32.ofNat t) = decide (t < lo + 1) := by
      rw [he, show UInt32.ofNat lo + 1 = UInt32.ofNat (lo + 1) by simp, seqAfter_ofNat (by omega) (by omega)]
    unfold releaseAcked
    rw [hafter]
    by_cases hlt : t < lo + 1
    · have : t - lo = 0 := by omega
      simp [hlt, this]
    · have hrec := ih hrest (by omega) (by omega) (by omega)
      have : t - lo = (t - (lo + 1)) + 1 := by omega
      simp [hlt, hrec, this]

/-- **A credit refresh keeps the window within the channel's credits**: frames in
flight plus the refreshed allowance never exceed the default credits. -/
theorem refreshTxCredits_window {ch : WkiChannel} {lo hi : Nat} (adv : UInt8)
    (hseq : ch.txSeq = UInt32.ofNat hi) (hack : ch.txAck = UInt32.ofNat lo) (hle : lo ≤ hi)
    (hwin : hi - lo ≤ (defaultCreditsForChannel ch.channelId).toNat) :
    hi - lo + (refreshTxCreditsFromAdvertisement ch adv).txCredits.toNat ≤
      (defaultCreditsForChannel ch.channelId).toNat := by
  have hmax := defaultCreditsForChannel_le ch.channelId
  -- the frames in flight, as the code computes them, are `hi - lo`
  have hin : (if seqAfter ch.txSeq ch.txAck then ch.txSeq - ch.txAck else 0).toNat = hi - lo := by
    rw [hseq, hack, seqAfter_ofNat (by omega) (by omega)]
    by_cases hlt : lo < hi
    · simp only [hlt, decide_true, ↓reduceIte, toNat_sub_ofNat]
      omega
    · simp only [hlt, decide_false, Bool.false_eq_true, ↓reduceIte, UInt32.toNat_zero]
      omega
  have hcap := toNat_min_le_right adv.toUInt32 (defaultCreditsForChannel ch.channelId).toUInt32
  rw [UInt16.toNat_toUInt32] at hcap
  unfold refreshTxCreditsFromAdvertisement
  simp only
  generalize (if seqAfter ch.txSeq ch.txAck then ch.txSeq - ch.txAck else 0) = x at hin ⊢
  generalize min adv.toUInt32 (defaultCreditsForChannel ch.channelId).toUInt32 = m at hcap ⊢
  split
  · rename_i hgt
    rw [gt_iff_lt, UInt32.lt_iff_toNat_lt] at hgt
    rw [UInt32.toNat_toUInt16, UInt32.toNat_sub_of_le _ _ (UInt32.le_iff_toNat_le.mpr (Nat.le_of_lt hgt))]
    omega
  · show hi - lo + ((0 : UInt32).toUInt16).toNat ≤ _
    rw [UInt32.toNat_toUInt16, UInt32.toNat_zero]
    omega

section SendFrame
variable (ch : WkiChannel)

@[simp] theorem refreshTxCreditsFromAdvertisement_txSeq (adv : UInt8) :
    (refreshTxCreditsFromAdvertisement ch adv).txSeq = ch.txSeq := rfl
@[simp] theorem refreshTxCreditsFromAdvertisement_txAck (adv : UInt8) :
    (refreshTxCreditsFromAdvertisement ch adv).txAck = ch.txAck := rfl
@[simp] theorem refreshTxCreditsFromAdvertisement_retransmit (adv : UInt8) :
    (refreshTxCreditsFromAdvertisement ch adv).retransmit = ch.retransmit := rfl
@[simp] theorem refreshTxCreditsFromAdvertisement_channelId (adv : UInt8) :
    (refreshTxCreditsFromAdvertisement ch adv).channelId = ch.channelId := rfl

variable (ackNum : UInt32)

@[simp] theorem countDupAck_txSeq : (countDupAck ch ackNum).1.txSeq = ch.txSeq := by
  unfold countDupAck; dsimp only; split_ifs <;> rfl
@[simp] theorem countDupAck_txAck : (countDupAck ch ackNum).1.txAck = ch.txAck := by
  unfold countDupAck; dsimp only; split_ifs <;> rfl
@[simp] theorem countDupAck_retransmit : (countDupAck ch ackNum).1.retransmit = ch.retransmit := by
  unfold countDupAck; dsimp only; split_ifs <;> rfl
@[simp] theorem countDupAck_channelId : (countDupAck ch ackNum).1.channelId = ch.channelId := by
  unfold countDupAck; dsimp only; split_ifs <;> rfl
@[simp] theorem countDupAck_txCredits : (countDupAck ch ackNum).1.txCredits = ch.txCredits := by
  unfold countDupAck; dsimp only; split_ifs <;> rfl
@[simp] theorem countDupAck_retransmitCount :
    (countDupAck ch ackNum).1.retransmitCount = ch.retransmitCount := by
  unfold countDupAck; dsimp only; split_ifs <;> rfl

variable (credits : UInt8)

@[simp] theorem processAck_txSeq : (processAck ch ackNum credits).1.txSeq = ch.txSeq := by
  unfold processAck; dsimp only; split_ifs <;> simp

@[simp] theorem processAck_channelId : (processAck ch ackNum credits).1.channelId = ch.channelId := by
  unfold processAck; dsimp only; split_ifs <;> simp

/-- **What an acknowledgement can do to the send half**: nothing to `tx_ack` and
the retransmit list, or advance `tx_ack` to `ackNum + 1`, which follows `tx_ack` and
does not follow `tx_seq`, and run the release loop there. -/
theorem processAck_cases :
    ((processAck ch ackNum credits).2.1 = [] ∧ (processAck ch ackNum credits).1.txAck = ch.txAck ∧
      (processAck ch ackNum credits).1.retransmit = ch.retransmit) ∨
    (Precedes ch.txAck (ackNum + 1) ∧ ¬ Precedes ch.txSeq (ackNum + 1) ∧
      (processAck ch ackNum credits).1.txAck = ackNum + 1 ∧
      ((processAck ch ackNum credits).1.retransmit, (processAck ch ackNum credits).2.1) =
        releaseAcked (ackNum + 1) ch.retransmit) := by
  unfold processAck
  dsimp only
  split_ifs with h₁ h₂ h₃ h₄ <;> simp_all [seqAfter, seqBefore]

/-- The count of the retransmit list goes down by the entries released. -/
theorem processAck_retransmitCount :
    (processAck ch ackNum credits).1.retransmitCount =
      ch.retransmitCount - UInt32.ofNat (processAck ch ackNum credits).2.1.length := by
  unfold processAck
  dsimp only
  split_ifs <;> simp_all [refreshTxCreditsFromAdvertisement]

/-- Outside the sent window an acknowledgement leaves the credits alone; inside it
they are the advertisement's, refreshed against the final `tx_seq` and `tx_ack`. -/
theorem processAck_txCredits :
    (processAck ch ackNum credits).1.txCredits = ch.txCredits ∨
      (processAck ch ackNum credits).1.txCredits =
        (refreshTxCreditsFromAdvertisement (processAck ch ackNum credits).1 credits).txCredits := by
  unfold processAck
  dsimp only
  split_ifs <;> simp_all [refreshTxCreditsFromAdvertisement]

end SendFrame

/-! ## What the receive operations keep

The receive operations change `rx_seq` and `rx_ack_pending` only where a frame is
consumed; the helpers around consumption leave them, the channel id and the
baseline flag alone. -/

section ReceiveFrame
variable (ch : WkiChannel)

@[simp] theorem refreshRxCredits_rxSeq : (refreshRxCredits ch).rxSeq = ch.rxSeq := rfl
@[simp] theorem refreshRxCredits_rxAckPending :
    (refreshRxCredits ch).rxAckPending = ch.rxAckPending := rfl
@[simp] theorem refreshRxCredits_channelId : (refreshRxCredits ch).channelId = ch.channelId := rfl
@[simp] theorem refreshRxCredits_rxBaselineInitialized :
    (refreshRxCredits ch).rxBaselineInitialized = ch.rxBaselineInitialized := rfl

@[simp] theorem dropStaleReorderEntries_rxSeq : (dropStaleReorderEntries ch).1.rxSeq = ch.rxSeq := by
  unfold dropStaleReorderEntries; dsimp only; split <;> rfl
@[simp] theorem dropStaleReorderEntries_rxAckPending :
    (dropStaleReorderEntries ch).1.rxAckPending = ch.rxAckPending := by
  unfold dropStaleReorderEntries; dsimp only; split <;> rfl
@[simp] theorem dropStaleReorderEntries_channelId :
    (dropStaleReorderEntries ch).1.channelId = ch.channelId := by
  unfold dropStaleReorderEntries; dsimp only; split <;> rfl
@[simp] theorem dropStaleReorderEntries_rxBaselineInitialized :
    (dropStaleReorderEntries ch).1.rxBaselineInitialized = ch.rxBaselineInitialized := by
  unfold dropStaleReorderEntries; dsimp only; split <;> rfl

variable (f : Frame) (alloc : Bool)

@[simp] theorem bufferOutOfOrder_rxSeq : (bufferOutOfOrder ch f alloc).rxSeq = ch.rxSeq := by
  unfold bufferOutOfOrder; dsimp only; split <;> simp
@[simp] theorem bufferOutOfOrder_rxAckPending :
    (bufferOutOfOrder ch f alloc).rxAckPending = ch.rxAckPending := by
  unfold bufferOutOfOrder; dsimp only; split <;> simp
@[simp] theorem bufferOutOfOrder_channelId :
    (bufferOutOfOrder ch f alloc).channelId = ch.channelId := by
  unfold bufferOutOfOrder; dsimp only; split <;> simp
@[simp] theorem bufferOutOfOrder_rxBaselineInitialized :
    (bufferOutOfOrder ch f alloc).rxBaselineInitialized = ch.rxBaselineInitialized := by
  unfold bufferOutOfOrder; dsimp only; split <;> simp

variable (ackNum : UInt32)

@[simp] theorem completeAckTransmit_rxSeq : (completeAckTransmit ch ackNum).rxSeq = ch.rxSeq := by
  unfold completeAckTransmit; split <;> rfl
@[simp] theorem completeAckTransmit_rxAckPending :
    (completeAckTransmit ch ackNum).rxAckPending = ch.rxAckPending := by
  unfold completeAckTransmit; split <;> rfl
@[simp] theorem completeAckTransmit_channelId :
    (completeAckTransmit ch ackNum).channelId = ch.channelId := by
  unfold completeAckTransmit; split <;> rfl
@[simp] theorem completeAckTransmit_rxBaselineInitialized :
    (completeAckTransmit ch ackNum).rxBaselineInitialized = ch.rxBaselineInitialized := by
  unfold completeAckTransmit; split <;> rfl

@[simp] theorem timerTickReceive_rxSeq : (timerTickReceive ch).rxSeq = ch.rxSeq := by
  unfold timerTickReceive; dsimp only; split <;> simp
@[simp] theorem timerTickReceive_rxAckPending :
    (timerTickReceive ch).rxAckPending = ch.rxAckPending := by
  unfold timerTickReceive; dsimp only; split <;> simp
@[simp] theorem timerTickReceive_channelId : (timerTickReceive ch).channelId = ch.channelId := by
  unfold timerTickReceive; dsimp only; split <;> simp
@[simp] theorem timerTickReceive_rxBaselineInitialized :
    (timerTickReceive ch).rxBaselineInitialized = ch.rxBaselineInitialized := by
  unfold timerTickReceive; dsimp only; split <;> simp

end ReceiveFrame

/-! ## Consumption follows `rx_seq`

`RxNext ch n`: the receive half expects position `n`, and its cumulative ACK names
position `n - 1` (`WKI_ACK_NONE` when `n = 0`).  Every consumption keeps this, one
position at a time, so what a channel consumes is always the run of names that
starts at the position it expects. -/

/-- The receive half expects the frame numbered `n` and acknowledges everything
before it. -/
def RxNext (ch : WkiChannel) (n : Nat) : Prop :=
  ch.rxSeq = UInt32.ofNat n ∧ ch.rxAckPending = UInt32.ofNat n - 1

theorem rxNext_channelInit (ch : WkiChannel) (channelId credits : UInt16) :
    RxNext (channelInit ch channelId credits) 0 := ⟨rfl, rfl⟩

@[simp] theorem consumeFrame_channelId (ch : WkiChannel) (f : Frame) :
    (consumeFrame ch f).channelId = ch.channelId := rfl
@[simp] theorem consumeFrame_rxBaselineInitialized (ch : WkiChannel) (f : Frame) :
    (consumeFrame ch f).rxBaselineInitialized = ch.rxBaselineInitialized := rfl

theorem rxNext_consumeFrame {ch : WkiChannel} {n : Nat} {f : Frame} (h : RxNext ch n)
    (hf : f.seq = ch.rxSeq) : RxNext (consumeFrame ch f) (n + 1) :=
  ⟨by simp [consumeFrame, h.1], by simp [consumeFrame, hf, h.1]⟩

/-- A receive step from `ch` to `ch'` that consumed `out` from position `n`: `out`
is the run of names from `n`, `ch'` expects the position after it, and the channel id
is kept. -/
structure ConsumesFrom (n : Nat) (ch ch' : WkiChannel) (out : List UInt32) : Prop where
  names_eq : out = names n out.length
  next : RxNext ch' (n + out.length)
  channelId_eq : ch'.channelId = ch.channelId

theorem ConsumesFrom.nil {n : Nat} {ch ch' : WkiChannel} (h : RxNext ch' n)
    (hid : ch'.channelId = ch.channelId) : ConsumesFrom n ch ch' [] :=
  ⟨rfl, by simpa using h, hid⟩

/-- Consuming the frame at position `n` and then a run from `n + 1` consumes a run
from `n`. -/
theorem ConsumesFrom.cons {n : Nat} {ch ch₁ ch' : WkiChannel} {out : List UInt32}
    (h : ConsumesFrom (n + 1) ch₁ ch' out) (hid : ch₁.channelId = ch.channelId) :
    ConsumesFrom n ch ch' (UInt32.ofNat n :: out) where
  names_eq := by
    rw [List.length_cons, names_succ]
    exact congrArg (UInt32.ofNat n :: ·) h.names_eq
  next := by simpa [Nat.add_assoc, Nat.add_comm 1] using h.next
  channelId_eq := h.channelId_eq.trans hid

/-- **The drain loop consumes the run of names that starts at `rx_seq`.** -/
theorem drainReorder_consumes (budget : Nat) {ch : WkiChannel} {n : Nat} (h : RxNext ch n) :
    ConsumesFrom n ch (drainReorder budget ch).1 (drainReorder budget ch).2 ∧
      (drainReorder budget ch).1.rxBaselineInitialized = ch.rxBaselineInitialized := by
  induction budget generalizing ch n with
  | zero => exact ⟨.nil h rfl, rfl⟩
  | succ budget ih =>
    unfold drainReorder
    split
    · exact ⟨.nil h rfl, rfl⟩
    · rename_i ro rest _
      split
      · rename_i hseq
        have hro : ro.seq = ch.rxSeq := beq_iff_eq.mp hseq
        have hr : RxNext (refreshRxCredits
            { ch with reorder := rest, reorderCount := ch.reorderCount - 1 }) n := h
        obtain ⟨hcons, hbase⟩ := ih (rxNext_consumeFrame hr hro)
        refine ⟨?_, by simpa [consumeBuffered] using hbase⟩
        rw [hro, h.1]
        exact hcons.cons rfl
      · exact ⟨.nil h rfl, rfl⟩

/-- **The in-order branch consumes the run of names that starts at `rx_seq`**: the
frame itself, then what the drain loop releases. -/
theorem consumeInOrder_consumes {ch : WkiChannel} {n : Nat} (h : RxNext ch n) {f : Frame}
    (hf : f.seq = ch.rxSeq) (budget : Nat) :
    ConsumesFrom n ch (consumeInOrder ch f budget).1 (consumeInOrder ch f budget).2 ∧
      (consumeInOrder ch f budget).1.rxBaselineInitialized = ch.rxBaselineInitialized := by
  set d := dropStaleReorderEntries (consumeFrame ch f)
  have h₁ := rxNext_consumeFrame h hf
  have h₂ : RxNext (if d.2 then { d.1 with ackPending := true } else d.1) (n + 1) := by
    split <;> exact ⟨by simp [d, h₁.1], by simp [d, h₁.2]⟩
  obtain ⟨hcons, hbase⟩ := drainReorder_consumes budget h₂
  refine ⟨?_, ?_⟩
  · show ConsumesFrom n ch _ (f.seq :: _)
    rw [hf, h.1]
    exact hcons.cons (by split <;> simp [d])
  · show (drainReorder budget _).1.rxBaselineInitialized = _
    rw [hbase]
    split <;> simp [d]

/-- **What the reliable branch consumes.**  Unless the reconnect resync fires, the
reliable branch of `wki_rx` consumes the run of names that starts at the position the
channel expects, and the channel then expects the position after it.  The frame is
recorded as observed either way. -/
theorem rxReliable_consumes {ch : WkiChannel} {n : Nat} (h : RxNext ch n) {f : Frame}
    (env : RxEnv) (hres : resyncFires ch f = false) :
    ConsumesFrom n ch (rxReliable ch f env).1 (rxReliable ch f env).2 ∧
      (rxReliable ch f env).1.rxBaselineInitialized = true := by
  have h₂ : RxNext { ch with rxBaselineInitialized := true } n := h
  unfold rxReliable
  simp only [hres, Bool.false_eq_true, ↓reduceIte]
  split
  · rename_i hseq
    split
    · obtain ⟨hcons, hbase⟩ := consumeInOrder_consumes h₂ (beq_iff_eq.mp hseq) env.drainBudget
      exact ⟨⟨hcons.names_eq, hcons.next, hcons.channelId_eq⟩, hbase⟩
    · exact ⟨.nil h₂ rfl, rfl⟩
  · split
    · exact ⟨.nil ⟨by simp [h.1], by simp [h.2]⟩ (by simp), by simp⟩
    · exact ⟨.nil ⟨by simp [h.1], by simp [h.2]⟩ (by simp), by simp⟩

end Wos.Wki
