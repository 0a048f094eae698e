import WosKernel.WkiReliable

/-! # The send half of a WKI channel keeps its retransmit queue

The reliable-path model (`WkiChannel`) keeps of the send half the sequence numbers,
the credits and the frames of the retransmit list.  `TxChannel` adds what the
code also keeps there (`wki.hpp`): for every entry of the list its storage (the
channel's inline `tx_rt_entry` or the heap), its retry count and its send time;
the tail pointer `retransmit_tail`; the flag `tx_rt_entry_in_use`; and the RTO
estimator `rto_us`, `srtt_us`, `rttvar_us`.  Its operations are the commit of
`wki_send_impl`, the ACK branch of `wki_rx` with the RTT samples its release
loop takes and the fast retransmit it may trigger, the retransmissions of the
timer and of `wki_channel_retransmit`, `wki_channel_update_rtt`,
`channel_init` and `wki_channel_reset`.  Each runs the `WkiChannel` operation
where there is one and keeps the added fields as the code does.

`TxInv` says what the send half keeps: the list holds the frames
`tx_ack, …, tx_seq - 1` in order, its count is its length, the tail is its last
node, the inline entry is in it at most once and exactly when it is marked in
use, the credits and the frames in flight stay within the channel's default,
and the RTO stays in `[WKI_MIN_RTO_US, WKI_MAX_RTO_US]`.  Every operation keeps
it (`TxInv.apply`), so every state reached from `channel_init` does
(`sender_channel_invariant`).  Under it the linking of a new entry after the
tail is an append, and the extended send is `wkiSend` (`wkiSendImpl_ch`).
-/

namespace Wos.Wki
open SerialNumber

/-! ## Constants (`wki.hpp`, `wire.hpp`) -/

def wkiInitialRtoUs : UInt32 := 500
def wkiMinRtoUs : UInt32 := 100
def wkiMaxRtoUs : UInt32 := 50000
/-- `WkiChannel::WKI_RT_INLINE_SIZE`. -/
def wkiRtInlineSize : Nat := 1500
/-- `WKI_HEADER_SIZE`. -/
def wkiHeaderSize : Nat := 32

/-! ## The send half with its storage and estimator -/

/-- Where a retransmit entry lives. -/
inductive RtStorage where
  /-- The channel's own `tx_rt_entry`. -/
  | inline
  /-- An entry from `wki_retransmit_entry_alloc`. -/
  | heap
deriving DecidableEq, Repr

/-- What a retransmit entry holds besides its frame. -/
structure RtInfo where
  storage : RtStorage
  retries : UInt8
  sendTimeUs : UInt64
deriving DecidableEq, Repr

/-- A channel with the fields of its send half that `WkiChannel` leaves out. -/
structure TxChannel where
  ch : WkiChannel
  /-- The storage, retries and send time of each entry of `ch.retransmit`, head first. -/
  info : List RtInfo
  /-- `retransmit_tail`, by the sequence number of the node it points to. -/
  tail : Option UInt32
  txRtEntryInUse : Bool
  rtoUs : UInt32
  srttUs : UInt32
  rttvarUs : UInt32
deriving DecidableEq, Repr

namespace TxChannel

/-- `channel_init` on the channel's pool slot, with the default credits every
allocation path passes.  The list is unlinked, not freed. -/
def channelInit (slot : TxChannel) (channelId : UInt16) : TxChannel :=
  { slot with
    ch := Wki.channelInit slot.ch channelId (defaultCreditsForChannel channelId)
    info := []
    tail := none
    txRtEntryInUse := false
    rtoUs := wkiInitialRtoUs
    srttUs := 0
    rttvarUs := 0 }

/-- `wki_channel_reset`: every entry released, the estimator restarted. -/
def wkiChannelReset (t : TxChannel) : TxChannel :=
  { t with
    ch := Wki.wkiChannelReset t.ch
    info := []
    tail := none
    txRtEntryInUse := false
    rtoUs := wkiInitialRtoUs
    srttUs := 0
    rttvarUs := 0 }

/-- The commit of `wki_send_impl` for a frame of `len` payload bytes.  Without a
credit it fails (`WKI_ERR_NO_CREDITS`); a frame that fits the free inline entry
takes it, any other needs the heap allocation the code makes with the lock
dropped (`alloc`), and fails without it (`WKI_ERR_NO_MEM`).  The new entry is
linked after `retransmit_tail` (at the head when the tail is null), counted,
and published: `tx_seq` advances and a credit is spent.  A failed first
transmission (`txFailed`) leaves the frame queued with one retry. -/
def wkiSendImpl (t : TxChannel) (len : UInt16) (alloc txFailed : Bool) (now : UInt64) :
    Option TxChannel :=
  if t.ch.txCredits = 0 then none
  else
    let useInline := decide (wkiHeaderSize + len.toNat ≤ wkiRtInlineSize) && !t.txRtEntryInUse
    if !useInline && !alloc then none
    else
      let e : Frame := ⟨t.ch.txSeq, len⟩
      let i : RtInfo := ⟨if useInline then .inline else .heap, if txFailed then 1 else 0, now⟩
      some { t with
        ch := { t.ch with
          -- `retransmit_tail->next = rt_entry`, or `retransmit_head = rt_entry`
          retransmit := if t.tail.isSome then t.ch.retransmit ++ [e] else [e]
          retransmitCount := t.ch.retransmitCount + 1
          txSeq := t.ch.txSeq + 1
          txCredits := t.ch.txCredits - 1 }
        info := (if t.tail.isSome then t.info else []) ++ [i]
        tail := some t.ch.txSeq
        txRtEntryInUse := t.txRtEntryInUse || useInline }

/-- `wki_channel_update_rtt`: Jacobson/Karels in 32-bit arithmetic (a first
sample sets `srtt` to it and `rttvar` to half of it), then the RTO
`srtt + 4 rttvar`, clamped to `[WKI_MIN_RTO_US, WKI_MAX_RTO_US]`.  The release
loop of the ACK branch runs the same code inline. -/
def wkiChannelUpdateRtt (t : TxChannel) (sampleUs : UInt32) : TxChannel :=
  let est : UInt32 × UInt32 :=
    if t.srttUs = 0 then (sampleUs, sampleUs / 2)
    else
      let err : Int32 := sampleUs.toInt32 - t.srttUs.toInt32
      let absErr : Int32 := if err < 0 then -err else err
      ((t.srttUs.toInt32 + err / 8).toUInt32,
        (t.rttvarUs.toInt32 + (absErr - t.rttvarUs.toInt32) / 4).toUInt32)
  { t with
    srttUs := est.1
    rttvarUs := est.2
    rtoUs := min (max (est.1 + 4 * est.2) wkiMinRtoUs) wkiMaxRtoUs }

/-- One entry leaving the list in the ACK branch: an RTT sample if it was sent
once, then `wki_retransmit_entry_release`, which frees the inline entry. -/
def releaseEntry (now : UInt64) (t : TxChannel) (i : RtInfo) : TxChannel :=
  let t₁ := if i.retries = 0 then t.wkiChannelUpdateRtt (now - i.sendTimeUs).toUInt32 else t
  if i.storage = .inline then { t₁ with txRtEntryInUse := false } else t₁

/-- A successful retransmission of the head of the list: one more retry, sent
`now`. -/
def bumpHead (t : TxChannel) (now : UInt64) : TxChannel :=
  match t.info with
  | [] => t
  | i :: rest => { t with info := { i with retries := i.retries + 1, sendTimeUs := now } :: rest }

/-- The ACK branch of `wki_rx`: `Wki.processAck` on the channel, with each entry the
release loop pops taken out of `info` and released in turn, the tail cleared when
the list empties, and the fast retransmit of the head (`fastTxOk`: its
transmission succeeds) when the duplicate ACKs reach the threshold. -/
def processAck (t : TxChannel) (ackNum : UInt32) (credits : UInt8) (now : UInt64)
    (fastTxOk : Bool) : TxChannel :=
  let r := Wki.processAck t.ch ackNum credits
  let n := r.2.1.length
  let t₁ := (t.info.take n).foldl (releaseEntry now)
    { t with
      ch := r.1
      info := t.info.drop n
      tail := if n ≠ 0 ∧ r.1.retransmit = [] then none else t.tail }
  if r.2.2 && fastTxOk then t₁.bumpHead now else t₁

/-- A retransmission of the head that doubles the RTO up to `WKI_MAX_RTO_US`: the
timer's (`wki_timer_tick`, `wki_timer_tick_single`) and `wki_channel_retransmit`'s.
Without a head, or when the transmission fails, nothing changes. -/
def retransmitHead (t : TxChannel) (now : UInt64) (txOk : Bool) : TxChannel :=
  if t.ch.retransmit.isEmpty || !txOk then t
  else { t.bumpHead now with rtoUs := min (t.rtoUs * 2) wkiMaxRtoUs }

/-- The retransmission of `wki_timer_tick_single` and `wki_timer_tick` once the
deadline has passed. -/
def timerRetransmit (t : TxChannel) (now : UInt64) (txOk : Bool) : TxChannel :=
  t.retransmitHead now txOk

/-- `wki_channel_retransmit`. -/
def wkiChannelRetransmit (t : TxChannel) (now : UInt64) (txOk : Bool) : TxChannel :=
  t.retransmitHead now txOk

end TxChannel


/-! ## The invariant of the send half -/

/-- What the send half keeps. -/
structure TxInv (t : TxChannel) : Prop where
  seqs : t.ch.retransmit.map (·.seq) = names t.ch.txAck.toNat (t.ch.txSeq - t.ch.txAck).toNat
  count_eq : t.ch.retransmitCount.toNat = t.ch.retransmit.length
  info_length : t.info.length = t.ch.retransmit.length
  tail_eq : t.tail = t.ch.retransmit.getLast?.map (·.seq)
  inline_le : (t.info.map (·.storage)).count .inline ≤ 1
  inUse_iff : t.txRtEntryInUse = true ↔ RtStorage.inline ∈ t.info.map (·.storage)
  window : (t.ch.txSeq - t.ch.txAck).toNat + t.ch.txCredits.toNat ≤
    (defaultCreditsForChannel t.ch.channelId).toNat
  rto_ge : wkiMinRtoUs.toNat ≤ t.rtoUs.toNat
  rto_le : t.rtoUs.toNat ≤ wkiMaxRtoUs.toNat

namespace TxInv
variable {t : TxChannel}

theorem length_retransmit (h : TxInv t) :
    t.ch.retransmit.length = (t.ch.txSeq - t.ch.txAck).toNat := by
  simpa using congrArg List.length h.seqs

theorem inFlight_le (h : TxInv t) : (t.ch.txSeq - t.ch.txAck).toNat ≤ 256 := by
  have := h.window
  have := defaultCreditsForChannel_le t.ch.channelId
  omega

/-- The tail is null exactly when the list is empty. -/
theorem tail_eq_none_iff (h : TxInv t) : t.tail = none ↔ t.ch.retransmit = [] := by
  rw [h.tail_eq, Option.map_eq_none_iff, List.getLast?_eq_none_iff]

/-- With a null tail the list and its entries are empty, so linking at the head is
linking after the last node. -/
theorem nil_of_tail (h : TxInv t) (hts : t.tail.isSome = false) :
    t.ch.retransmit = [] ∧ t.info = [] := by
  have hr := h.tail_eq_none_iff.mp (Option.not_isSome_iff_eq_none.mp (by simpa using hts))
  exact ⟨hr, List.eq_nil_of_length_eq_zero (by rw [h.info_length, hr]; rfl)⟩

end TxInv

/-! ## Estimator bounds -/

/-- The clamp of the RTO lands in `[WKI_MIN_RTO_US, WKI_MAX_RTO_US]` whatever it
clamps, an estimate that wrapped around included. -/
theorem clampRto_bounds (x : UInt32) :
    wkiMinRtoUs.toNat ≤ (min (max x wkiMinRtoUs) wkiMaxRtoUs).toNat ∧
      (min (max x wkiMinRtoUs) wkiMaxRtoUs).toNat ≤ wkiMaxRtoUs.toNat := by
  rw [toNat_min, toNat_max]
  have h₁ : wkiMinRtoUs.toNat = 100 := rfl
  have h₂ : wkiMaxRtoUs.toNat = 50000 := rfl
  omega

/-- Doubling an RTO within the bounds and capping it keeps it within them. -/
theorem backoffRto_bounds {rto : UInt32} (h₁ : wkiMinRtoUs.toNat ≤ rto.toNat)
    (h₂ : rto.toNat ≤ wkiMaxRtoUs.toNat) :
    wkiMinRtoUs.toNat ≤ (min (rto * 2) wkiMaxRtoUs).toNat ∧
      (min (rto * 2) wkiMaxRtoUs).toNat ≤ wkiMaxRtoUs.toNat := by
  have hmin : wkiMinRtoUs.toNat = 100 := rfl
  have hmax : wkiMaxRtoUs.toNat = 50000 := rfl
  have hmul : (rto * 2).toNat = rto.toNat * 2 := by
    rw [UInt32.toNat_mul, show (2 : UInt32).toNat = 2 from rfl, Nat.mod_eq_of_lt (by omega)]
  rw [toNat_min, hmul]
  omega

namespace TxChannel

theorem wkiChannelUpdateRtt_rto (t : TxChannel) (sampleUs : UInt32) :
    wkiMinRtoUs.toNat ≤ (t.wkiChannelUpdateRtt sampleUs).rtoUs.toNat ∧
      (t.wkiChannelUpdateRtt sampleUs).rtoUs.toNat ≤ wkiMaxRtoUs.toNat :=
  clampRto_bounds _

/-! ## What releasing entries and retrying the head touch -/

section Release
variable (now : UInt64)

@[simp] theorem wkiChannelUpdateRtt_ch (t : TxChannel) (s : UInt32) :
    (t.wkiChannelUpdateRtt s).ch = t.ch := rfl
@[simp] theorem wkiChannelUpdateRtt_info (t : TxChannel) (s : UInt32) :
    (t.wkiChannelUpdateRtt s).info = t.info := rfl
@[simp] theorem wkiChannelUpdateRtt_tail (t : TxChannel) (s : UInt32) :
    (t.wkiChannelUpdateRtt s).tail = t.tail := rfl
@[simp] theorem wkiChannelUpdateRtt_txRtEntryInUse (t : TxChannel) (s : UInt32) :
    (t.wkiChannelUpdateRtt s).txRtEntryInUse = t.txRtEntryInUse := rfl

/-- **Releasing entries** leaves the channel, the entries left and the tail alone,
frees the inline entry if it is among them, and keeps the RTO within bounds. -/
theorem foldl_releaseEntry (l : List RtInfo) (t : TxChannel)
    (h₁ : wkiMinRtoUs.toNat ≤ t.rtoUs.toNat) (h₂ : t.rtoUs.toNat ≤ wkiMaxRtoUs.toNat) :
    (l.foldl (releaseEntry now) t).ch = t.ch ∧ (l.foldl (releaseEntry now) t).info = t.info ∧
      (l.foldl (releaseEntry now) t).tail = t.tail ∧
      ((l.foldl (releaseEntry now) t).txRtEntryInUse = true ↔
        t.txRtEntryInUse = true ∧ RtStorage.inline ∉ l.map (·.storage)) ∧
      wkiMinRtoUs.toNat ≤ (l.foldl (releaseEntry now) t).rtoUs.toNat ∧
      (l.foldl (releaseEntry now) t).rtoUs.toNat ≤ wkiMaxRtoUs.toNat := by
  induction l generalizing t with
  | nil => simp [h₁, h₂]
  | cons i l ih =>
    set t₁ := if i.retries = 0 then t.wkiChannelUpdateRtt (now - i.sendTimeUs).toUInt32 else t
      with ht₁
    have hb : wkiMinRtoUs.toNat ≤ t₁.rtoUs.toNat ∧ t₁.rtoUs.toNat ≤ wkiMaxRtoUs.toNat := by
      rw [ht₁]
      split
      · exact wkiChannelUpdateRtt_rto _ _
      · exact ⟨h₁, h₂⟩
    have hkeep : t₁.ch = t.ch ∧ t₁.info = t.info ∧ t₁.tail = t.tail ∧
        t₁.txRtEntryInUse = t.txRtEntryInUse := by
      rw [ht₁]
      split <;> simp
    rw [List.foldl_cons, List.map_cons]
    by_cases hi : i.storage = .inline
    · have hstep : releaseEntry now t i = { t₁ with txRtEntryInUse := false } := by
        simp only [releaseEntry, ← ht₁, hi, if_true]
      obtain ⟨e₁, e₂, e₃, e₄, e₅, e₆⟩ := ih { t₁ with txRtEntryInUse := false } hb.1 hb.2
      rw [hstep]
      exact ⟨e₁.trans hkeep.1, e₂.trans hkeep.2.1, e₃.trans hkeep.2.2.1, by simp [e₄, hi], e₅, e₆⟩
    · have hstep : releaseEntry now t i = t₁ := by
        simp only [releaseEntry, ← ht₁, hi, if_false]
      obtain ⟨e₁, e₂, e₃, e₄, e₅, e₆⟩ := ih t₁ hb.1 hb.2
      rw [hstep]
      refine ⟨e₁.trans hkeep.1, e₂.trans hkeep.2.1, e₃.trans hkeep.2.2.1, ?_, e₅, e₆⟩
      rw [e₄, hkeep.2.2.2, List.mem_cons]
      constructor
      · rintro ⟨hu, hn⟩
        exact ⟨hu, fun h' => h'.elim (fun he => hi he.symm) hn⟩
      · rintro ⟨hu, hn⟩
        exact ⟨hu, fun h' => hn (Or.inr h')⟩

@[simp] theorem bumpHead_ch (t : TxChannel) : (t.bumpHead now).ch = t.ch := by
  unfold bumpHead; split <;> rfl
@[simp] theorem bumpHead_tail (t : TxChannel) : (t.bumpHead now).tail = t.tail := by
  unfold bumpHead; split <;> rfl
@[simp] theorem bumpHead_txRtEntryInUse (t : TxChannel) :
    (t.bumpHead now).txRtEntryInUse = t.txRtEntryInUse := by
  unfold bumpHead; split <;> rfl
@[simp] theorem bumpHead_rtoUs (t : TxChannel) : (t.bumpHead now).rtoUs = t.rtoUs := by
  unfold bumpHead; split <;> rfl

/-- A retry changes no entry's storage. -/
@[simp] theorem map_storage_bumpHead (t : TxChannel) :
    (t.bumpHead now).info.map (·.storage) = t.info.map (·.storage) := by
  unfold bumpHead; split <;> simp_all

theorem length_info_bumpHead (t : TxChannel) : (t.bumpHead now).info.length = t.info.length := by
  have h := congrArg List.length (map_storage_bumpHead now t)
  rwa [List.length_map, List.length_map] at h

end Release

end TxChannel

/-! ## What an acknowledgement does to a window of consecutive frames -/

theorem toNat_sub_add_ofNat (a b : UInt32) {k : Nat} (hk : k ≤ (a - b).toNat) :
    (a - (b + UInt32.ofNat k)).toNat = (a - b).toNat - k := by
  have ha := UInt32.toNat_lt a
  have hb := UInt32.toNat_lt b
  have hk' : k < 2 ^ 32 := Nat.lt_of_le_of_lt hk (UInt32.toNat_lt _)
  rw [UInt32.toNat_sub] at hk
  rw [UInt32.toNat_sub, UInt32.toNat_sub, UInt32.toNat_add, UInt32.toNat_ofNat', Nat.mod_eq_of_lt hk']
  omega

theorem toNat_add_one_sub (a b : UInt32) (h : (a - b).toNat + 1 < 2 ^ 32) :
    (a + 1 - b).toNat = (a - b).toNat + 1 := by
  have ha := UInt32.toNat_lt a
  have hb := UInt32.toNat_lt b
  rw [UInt32.toNat_sub] at h
  rw [UInt32.toNat_sub, UInt32.toNat_sub, UInt32.toNat_add, UInt32.toNat_one]
  omega

/-- **An acknowledgement releases a prefix of the window.**  If the retransmit list
holds the frames `tx_ack, …, tx_seq - 1` and the window is within the channel's
credits, an acknowledgement releases the first `k` of them for some `k` up to their
number, moves `tx_ack` forward by `k`, and keeps the window within the credits. -/
theorem processAck_releases {ch : WkiChannel} (ackNum : UInt32) (credits : UInt8)
    (hseqs : ch.retransmit.map (·.seq) = names ch.txAck.toNat (ch.txSeq - ch.txAck).toNat)
    (hwin : (ch.txSeq - ch.txAck).toNat + ch.txCredits.toNat ≤
      (defaultCreditsForChannel ch.channelId).toNat) :
    (processAck ch ackNum credits).2.1.length ≤ (ch.txSeq - ch.txAck).toNat ∧
      (processAck ch ackNum credits).1.retransmit =
        ch.retransmit.drop (processAck ch ackNum credits).2.1.length ∧
      (processAck ch ackNum credits).1.txAck =
        ch.txAck + UInt32.ofNat (processAck ch ackNum credits).2.1.length ∧
      ((processAck ch ackNum credits).1.txSeq - (processAck ch ackNum credits).1.txAck).toNat +
          (processAck ch ackNum credits).1.txCredits.toNat ≤
        (defaultCreditsForChannel ch.channelId).toNat := by
  have hd := defaultCreditsForChannel_le ch.channelId
  have hlen : ch.retransmit.length = (ch.txSeq - ch.txAck).toNat := by
    simpa using congrArg List.length hseqs
  set n := (ch.txSeq - ch.txAck).toNat with hn
  set lo := ch.txAck.toNat with hlo
  have hack0 : ch.txAck = UInt32.ofNat lo := UInt32.ofNat_toNat.symm
  have hseq0 : ch.txSeq = UInt32.ofNat (lo + n) := by
    rw [UInt32.ofNat_add, UInt32.ofNat_toNat, UInt32.ofNat_toNat]
    simp
  have hseq' := (processAck_txSeq ch ackNum credits).trans hseq0
  rcases processAck_cases ch ackNum credits with ⟨hrel, hack, hre⟩ | ⟨hafter, hnot, hack, hrel⟩
  · have hw := @processAck_window ch ackNum credits lo lo (lo + n) hseq' (hack.trans hack0) le_rfl
      (by omega) (by omega)
    rw [hrel, List.length_nil]
    refine ⟨Nat.zero_le _, by rw [hre]; rfl, by rw [hack]; simp, ?_⟩
    rw [hack, processAck_txSeq]
    omega
  · rw [hack0] at hafter
    rw [hseq0] at hnot
    obtain ⟨t', hlt, hle, hcov⟩ := exists_of_window (by omega : lo ≤ lo + n) (by omega) hafter hnot
    have hl : ch.retransmit.map (·.seq) = names lo ch.retransmit.length := by
      rw [hlen]
      exact hseqs
    rw [hcov, releaseAcked_names hl (by omega) (by omega) (by omega)] at hrel
    obtain ⟨hre, hrl⟩ := Prod.mk.inj hrel
    have hk : (processAck ch ackNum credits).2.1.length = t' - lo := by
      rw [hrl, List.length_take]
      omega
    have hw := @processAck_window ch ackNum credits lo t' (lo + n) hseq' (hack.trans hcov)
      (Nat.le_of_lt hlt) hle (by omega)
    have hack' : (processAck ch ackNum credits).1.txAck = ch.txAck + UInt32.ofNat (t' - lo) := by
      rw [hack, hcov, hack0, ← UInt32.ofNat_add]
      congr 1
      omega
    rw [hk]
    refine ⟨by omega, by rw [← hre], hack', ?_⟩
    rw [hack', processAck_txSeq, toNat_sub_add_ofNat _ _ (by omega)]
    omega

/-- An element a list holds at most once is in a suffix exactly when it is in the
list and not in the prefix before it. -/
theorem mem_drop_iff_of_count_le_one {α : Type} [DecidableEq α] {a : α} {l : List α} (k : Nat)
    (h : l.count a ≤ 1) : a ∈ l.drop k ↔ a ∈ l ∧ a ∉ l.take k := by
  have hsplit : l.count a = (l.take k).count a + (l.drop k).count a := by
    rw [← List.count_append, List.take_append_drop]
  constructor
  · intro hd
    refine ⟨List.mem_of_mem_drop hd, fun ht => ?_⟩
    have h₁ := List.count_pos_iff.mpr ht
    have h₂ := List.count_pos_iff.mpr hd
    omega
  · rintro ⟨hm, hn⟩
    rw [← List.take_append_drop k l, List.mem_append] at hm
    exact hm.resolve_left hn

/-! ## Every operation keeps the invariant -/

namespace TxInv
variable {t : TxChannel}

theorem channelInit (slot : TxChannel) (channelId : UInt16) : TxInv (slot.channelInit channelId) where
  seqs := by simp [TxChannel.channelInit, Wki.channelInit]
  count_eq := rfl
  info_length := rfl
  tail_eq := rfl
  inline_le := by simp [TxChannel.channelInit]
  inUse_iff := by simp [TxChannel.channelInit]
  window := by simp [TxChannel.channelInit, Wki.channelInit]
  rto_ge := by show wkiMinRtoUs.toNat ≤ wkiInitialRtoUs.toNat; decide
  rto_le := by show wkiInitialRtoUs.toNat ≤ wkiMaxRtoUs.toNat; decide

theorem wkiChannelReset (t : TxChannel) : TxInv t.wkiChannelReset where
  seqs := by simp [TxChannel.wkiChannelReset, Wki.wkiChannelReset]
  count_eq := rfl
  info_length := rfl
  tail_eq := rfl
  inline_le := by simp [TxChannel.wkiChannelReset]
  inUse_iff := by simp [TxChannel.wkiChannelReset]
  window := by simp [TxChannel.wkiChannelReset, Wki.wkiChannelReset]
  rto_ge := by show wkiMinRtoUs.toNat ≤ wkiInitialRtoUs.toNat; decide
  rto_le := by show wkiInitialRtoUs.toNat ≤ wkiMaxRtoUs.toNat; decide

/-- A retry of the head changes only its retries and send time. -/
theorem bumpHead (h : TxInv t) (now : UInt64) : TxInv (t.bumpHead now) where
  seqs := by rw [TxChannel.bumpHead_ch]; exact h.seqs
  count_eq := by rw [TxChannel.bumpHead_ch]; exact h.count_eq
  info_length := by rw [TxChannel.length_info_bumpHead, TxChannel.bumpHead_ch]; exact h.info_length
  tail_eq := by rw [TxChannel.bumpHead_tail, TxChannel.bumpHead_ch]; exact h.tail_eq
  inline_le := by rw [TxChannel.map_storage_bumpHead]; exact h.inline_le
  inUse_iff := by
    rw [TxChannel.map_storage_bumpHead, TxChannel.bumpHead_txRtEntryInUse]
    exact h.inUse_iff
  window := by rw [TxChannel.bumpHead_ch]; exact h.window
  rto_ge := by rw [TxChannel.bumpHead_rtoUs]; exact h.rto_ge
  rto_le := by rw [TxChannel.bumpHead_rtoUs]; exact h.rto_le

theorem retransmitHead (h : TxInv t) (now : UInt64) (txOk : Bool) :
    TxInv (t.retransmitHead now txOk) := by
  unfold TxChannel.retransmitHead
  split
  · exact h
  · have hb := h.bumpHead now
    have hr := backoffRto_bounds h.rto_ge h.rto_le
    exact ⟨hb.seqs, hb.count_eq, hb.info_length, hb.tail_eq, hb.inline_le, hb.inUse_iff,
      hb.window, hr.1, hr.2⟩

theorem wkiChannelUpdateRtt (h : TxInv t) (sampleUs : UInt32) :
    TxInv (t.wkiChannelUpdateRtt sampleUs) :=
  ⟨h.seqs, h.count_eq, h.info_length, h.tail_eq, h.inline_le, h.inUse_iff, h.window,
    (t.wkiChannelUpdateRtt_rto sampleUs).1, (t.wkiChannelUpdateRtt_rto sampleUs).2⟩

/-- Linking a new node after the tail, or at the head when the tail is null,
appends it, and its entry after the last entry. -/
theorem link (h : TxInv t) (e : Frame) (i : RtInfo) :
    (if t.tail.isSome then t.ch.retransmit ++ [e] else [e]) = t.ch.retransmit ++ [e] ∧
      (if t.tail.isSome then t.info else []) ++ [i] = t.info ++ [i] := by
  cases hts : t.tail.isSome
  · obtain ⟨hr, hi⟩ := h.nil_of_tail hts
    simp [hr, hi]
  · simp

/-- **A send appends the next frame after the last node.**  The tail is null only on
an empty list, so linking at the head is linking after the last node; the inline
entry is taken only while it is free. -/
theorem wkiSendImpl (h : TxInv t) {len : UInt16} {alloc txFailed : Bool} {now : UInt64}
    {t' : TxChannel} (hs : t.wkiSendImpl len alloc txFailed now = some t') : TxInv t' := by
  have hn := h.inFlight_le
  have hcount := h.count_eq
  have hwin := h.window
  unfold TxChannel.wkiSendImpl at hs
  split at hs
  · cases hs
  · rename_i hcred
    dsimp only at hs
    split at hs
    · cases hs
    · cases hs
      set useInline := decide (wkiHeaderSize + len.toNat ≤ wkiRtInlineSize) && !t.txRtEntryInUse
        with hu
      set i : RtInfo := ⟨if useInline then .inline else .heap, if txFailed then 1 else 0, now⟩ with hi
      obtain ⟨hlink, hinfo⟩ := h.link (Frame.mk t.ch.txSeq len) i
      rw [hlink, hinfo]
      have hpos : 0 < t.ch.txCredits.toNat := by
        rcases Nat.eq_zero_or_pos t.ch.txCredits.toNat with h0 | h0
        · exact absurd (UInt16.toNat_inj.mp (by simpa using h0)) hcred
        · exact h0
      have hseq1 : (t.ch.txSeq + 1 - t.ch.txAck).toNat = (t.ch.txSeq - t.ch.txAck).toNat + 1 :=
        toNat_add_one_sub _ _ (by omega)
      have hstor : (t.info ++ [i]).map (·.storage) = t.info.map (·.storage) ++ [i.storage] := by
        simp
      refine ⟨?_, ?_, ?_, ?_, ?_, ?_, ?_, h.rto_ge, h.rto_le⟩
      · show (t.ch.retransmit ++ [Frame.mk t.ch.txSeq len]).map (·.seq) =
          names t.ch.txAck.toNat (t.ch.txSeq + 1 - t.ch.txAck).toNat
        rw [List.map_append, h.seqs, hseq1, names_succ_right]
        congr 2
        rw [UInt32.ofNat_add, UInt32.ofNat_toNat, UInt32.ofNat_toNat]
        simp
      · show (t.ch.retransmitCount + 1).toNat = (t.ch.retransmit ++ [Frame.mk t.ch.txSeq len]).length
        rw [UInt32.toNat_add, UInt32.toNat_one, List.length_append, hcount, List.length_singleton]
        have := h.length_retransmit
        omega
      · show (t.info ++ [i]).length = (t.ch.retransmit ++ [Frame.mk t.ch.txSeq len]).length
        simp only [List.length_append, List.length_singleton, h.info_length]
      · show some t.ch.txSeq = (t.ch.retransmit ++ [Frame.mk t.ch.txSeq len]).getLast?.map (·.seq)
        rw [List.getLast?_concat]
        rfl
      · show ((t.info ++ [i]).map (·.storage)).count .inline ≤ 1
        rw [hstor, List.count_append]
        by_cases hin : useInline = true
        · have hfree : t.txRtEntryInUse = false := by
            simp only [hu, Bool.and_eq_true, Bool.not_eq_true'] at hin
            exact hin.2
          have h0 : (t.info.map (·.storage)).count .inline = 0 :=
            List.count_eq_zero.mpr fun hm => by simp [h.inUse_iff.mpr hm] at hfree
          rw [h0, Nat.zero_add]
          exact (List.count_le_length ..).trans_eq List.length_singleton
        · have hs : i.storage = .heap := by simp [hi, hin]
          rw [hs]
          simpa using h.inline_le
      · show (t.txRtEntryInUse || useInline) = true ↔ RtStorage.inline ∈ (t.info ++ [i]).map (·.storage)
        rw [hstor, List.mem_append, List.mem_singleton, Bool.or_eq_true, h.inUse_iff]
        by_cases hin : useInline = true
        · simp [hi, hin]
        · simp [hi, hin]
      · show (t.ch.txSeq + 1 - t.ch.txAck).toNat + (t.ch.txCredits - 1).toNat ≤
          (defaultCreditsForChannel t.ch.channelId).toNat
        rw [hseq1, UInt16.toNat_sub_of_le _ _ (UInt16.le_iff_toNat_le.mpr (by rw [UInt16.toNat_one]; exact hpos)),
          UInt16.toNat_one]
        omega

/-- **An acknowledgement releases the head of the list.**  The release loop pops
the frames the acknowledgement covers together with their entries, the tail is
cleared exactly when that empties the list, and the inline entry is free again
if it was among them. -/
theorem processAck (h : TxInv t) (ackNum : UInt32) (credits : UInt8) (now : UInt64)
    (fastTxOk : Bool) : TxInv (t.processAck ackNum credits now fastTxOk) := by
  obtain ⟨hk, hre, hack, hwin⟩ := processAck_releases ackNum credits h.seqs h.window
  set r := Wki.processAck t.ch ackNum credits with hr
  set k := r.2.1.length with hkdef
  have hlen := h.length_retransmit
  have hN := h.inFlight_le
  have hsize : UInt32.size = 2 ^ 32 := rfl
  set t₀ : TxChannel := { t with
    ch := r.1
    info := t.info.drop k
    tail := if k ≠ 0 ∧ r.1.retransmit = [] then none else t.tail } with ht₀
  obtain ⟨e₁, e₂, e₃, e₄, e₅, e₆⟩ :=
    TxChannel.foldl_releaseEntry now (t.info.take k) t₀ h.rto_ge h.rto_le
  -- the state after the release loop, before any fast retransmit
  have h₁ : TxInv ((t.info.take k).foldl (TxChannel.releaseEntry now) t₀) := by
    refine ⟨?_, ?_, ?_, ?_, ?_, ?_, ?_, e₅, e₆⟩
    · rw [e₁]
      show r.1.retransmit.map (·.seq) = names r.1.txAck.toNat (r.1.txSeq - r.1.txAck).toNat
      rw [hre, List.map_drop, h.seqs, names_drop, hack, processAck_txSeq,
        toNat_sub_add_ofNat _ _ hk, ← UInt32.ofNat_toNat (x := t.ch.txAck), ← UInt32.ofNat_add,
        names_toNat_ofNat, UInt32.ofNat_toNat]
    · rw [e₁]
      show r.1.retransmitCount.toNat = r.1.retransmit.length
      have hle : UInt32.ofNat k ≤ t.ch.retransmitCount :=
        (UInt32.ofNat_le_iff (by omega)).mpr (by rw [h.count_eq]; omega)
      rw [processAck_retransmitCount, ← hkdef, UInt32.toNat_sub_of_le _ _ hle,
        UInt32.toNat_ofNat_of_lt' (by omega), h.count_eq, hre, List.length_drop]
    · rw [e₁, e₂]
      show (t.info.drop k).length = r.1.retransmit.length
      rw [hre, List.length_drop, List.length_drop, h.info_length]
    · rw [e₁, e₃]
      show (if k ≠ 0 ∧ r.1.retransmit = [] then none else t.tail) = r.1.retransmit.getLast?.map (·.seq)
      rw [hre, List.getLast?_drop, h.tail_eq]
      by_cases hk0 : k = 0
      · by_cases he : t.ch.retransmit = [] <;> simp [hk0, he]
      · by_cases hall : t.ch.retransmit.length ≤ k
        · simp [hk0, hall]
        · simp [hk0, hall, List.drop_eq_nil_iff]
    · rw [e₂]
      exact ((List.drop_sublist k t.info).map _).count_le _ |>.trans h.inline_le
    · rw [e₄, e₂]
      show t.txRtEntryInUse = true ∧ RtStorage.inline ∉ (t.info.take k).map (·.storage) ↔
        RtStorage.inline ∈ (t.info.drop k).map (·.storage)
      rw [h.inUse_iff, List.map_take, List.map_drop, mem_drop_iff_of_count_le_one k h.inline_le]
    · rw [e₁]
      show (r.1.txSeq - r.1.txAck).toNat + r.1.txCredits.toNat ≤
        (defaultCreditsForChannel r.1.channelId).toNat
      rw [processAck_channelId]
      exact hwin
  unfold TxChannel.processAck
  dsimp only
  split
  · exact h₁.bumpHead now
  · exact h₁

/-- **The committed send is the reliable-path send.**  Under the invariant, a send
that commits does to the channel what `wkiSend` does: the storage, the tail and the
lock dropped for the allocation change nothing the receive side or the credits see. -/
theorem wkiSendImpl_ch (h : TxInv t) {len : UInt16} {alloc txFailed : Bool} {now : UInt64}
    {t' : TxChannel} (hs : t.wkiSendImpl len alloc txFailed now = some t') :
    wkiSend t.ch len = some t'.ch := by
  unfold TxChannel.wkiSendImpl at hs
  split at hs
  · cases hs
  · rename_i hcred
    dsimp only at hs
    split at hs
    · cases hs
    · cases hs
      rw [wkiSend, if_neg hcred, (h.link (Frame.mk t.ch.txSeq len) ⟨.heap, 0, 0⟩).1]

end TxInv

/-! ## Runs -/

/-- The operations on the send half of a channel. -/
inductive TxOp where
  /-- `channel_init` on the channel's pool slot, with the default credits. -/
  | init (channelId : UInt16)
  | reset
  /-- `wki_send_impl`; a send that fails leaves the channel as it was. -/
  | send (len : UInt16) (alloc txFailed : Bool) (now : UInt64)
  /-- The ACK branch of `wki_rx`. -/
  | ack (ackNum : UInt32) (credits : UInt8) (now : UInt64) (fastTxOk : Bool)
  | timerRetransmit (now : UInt64) (txOk : Bool)
  | retransmit (now : UInt64) (txOk : Bool)
  | updateRtt (sampleUs : UInt32)
deriving DecidableEq, Repr

def TxOp.apply : TxOp → TxChannel → TxChannel
  | .init channelId, t => t.channelInit channelId
  | .reset, t => t.wkiChannelReset
  | .send len alloc txFailed now, t => (t.wkiSendImpl len alloc txFailed now).getD t
  | .ack ackNum credits now fastTxOk, t => t.processAck ackNum credits now fastTxOk
  | .timerRetransmit now txOk, t => t.timerRetransmit now txOk
  | .retransmit now txOk, t => t.wkiChannelRetransmit now txOk
  | .updateRtt sampleUs, t => t.wkiChannelUpdateRtt sampleUs

def TxOp.run (t : TxChannel) (ops : List TxOp) : TxChannel :=
  ops.foldl (fun t op => op.apply t) t

theorem TxInv.apply {t : TxChannel} (h : TxInv t) : ∀ op : TxOp, TxInv (op.apply t)
  | .init channelId => TxInv.channelInit t channelId
  | .reset => TxInv.wkiChannelReset t
  | .send len alloc txFailed now => by
    rw [TxOp.apply]
    cases hs : t.wkiSendImpl len alloc txFailed now with
    | none => exact h
    | some t' => exact h.wkiSendImpl hs
  | .ack ackNum credits now fastTxOk => h.processAck ackNum credits now fastTxOk
  | .timerRetransmit now txOk => h.retransmitHead now txOk
  | .retransmit now txOk => h.retransmitHead now txOk
  | .updateRtt sampleUs => h.wkiChannelUpdateRtt sampleUs

theorem TxInv.run {t : TxChannel} (h : TxInv t) (ops : List TxOp) : TxInv (TxOp.run t ops) := by
  induction ops generalizing t with
  | nil => exact h
  | cons op ops ih => exact ih (h.apply op)

theorem sender_channel_invariant (slot : TxChannel) (channelId : UInt16) (ops : List TxOp) :
    let t := TxOp.run (slot.channelInit channelId) ops
    t.ch.retransmit.map (·.seq) =
        (List.range (t.ch.txSeq - t.ch.txAck).toNat).map (fun i => t.ch.txAck + UInt32.ofNat i) ∧
      t.ch.retransmitCount.toNat = t.ch.retransmit.length ∧
      t.ch.retransmit.length = (t.ch.txSeq - t.ch.txAck).toNat ∧
      t.tail = t.ch.retransmit.getLast?.map (·.seq) ∧ (t.tail = none ↔ t.ch.retransmit = []) ∧
      t.info.length = t.ch.retransmit.length ∧
      (t.info.map (·.storage)).count .inline ≤ 1 ∧
      (t.txRtEntryInUse = true ↔ RtStorage.inline ∈ t.info.map (·.storage)) ∧
      t.ch.txCredits.toNat + (t.ch.txSeq - t.ch.txAck).toNat ≤
        (defaultCreditsForChannel t.ch.channelId).toNat ∧
      wkiMinRtoUs.toNat ≤ t.rtoUs.toNat ∧ t.rtoUs.toNat ≤ wkiMaxRtoUs.toNat := by
  intro t
  have h : TxInv t := (TxInv.channelInit slot channelId).run ops
  refine ⟨?_, h.count_eq, h.length_retransmit, h.tail_eq, h.tail_eq_none_iff, h.info_length,
    h.inline_le, h.inUse_iff, ?_, h.rto_ge, h.rto_le⟩
  · rw [h.seqs, names_toNat]
  · have := h.window
    omega

end Wos.Wki
