import WosKernel.WkiChannel

/-! # One reliable WKI channel, end to end

A sender's channel and a receiver's channel of the same id, both fresh from
`channel_init`, talk over a network that may drop, duplicate, delay and reorder
every frame and every acknowledgement.  The network is the list of everything ever
transmitted (`World.frames`, `World.acks`): a delivery takes any element of it, any
number of times, or never.  The sender sends (`wkiSend`), retransmits the head of its
retransmit list (timer or fast retransmit) and processes acknowledgements
(`processAck`); the receiver processes reliable frames (`rxReliable`), runs its timer
and sends its cumulative ACK, pure or piggybacked, whenever it likes.

Two observations are recorded along a run: the sequence numbers the receiver
consumes (`World.consumed`) and those of the retransmit entries the sender releases
(`World.released`).  The delivery property (`World.Delivered`) asks that the
receiver consume `0, 1, 2, …` in order, and that the sender release only what the
receiver has consumed.

It does not hold of every run (`reliable_channel_resync_breaks_order`): on every
channel but IPC data, a receiver whose first observed frame is not number `0` adopts
that number as its baseline (the reconnect resync of `wki_rx`) and skips what came
before; and an acknowledgement held back while the sender laps the 32-bit sequence
space names a position the receiver has not reached (`stale_ack_releases_unconsumed`).
It holds of every run without either (`reliable_channel_delivers_in_order`).
The proof is an invariant (`World.Inv`) that ties each 32-bit counter to the
unbounded position it names.
-/

namespace Wos.Wki
open SerialNumber

/-- An acknowledgement in flight: the cumulative ACK and the credits of the frame
that carries it.  `covers` is not on the wire: it records how many frames the
receiver had consumed when it sent the acknowledgement. -/
structure AckMsg where
  ackNum : UInt32
  credits : UInt8
  covers : Nat
deriving DecidableEq, Repr

/-- The two channels, the network, and the two observations. -/
structure World where
  sender : WkiChannel
  receiver : WkiChannel
  /-- Every reliable frame the sender has transmitted. -/
  frames : List Frame
  /-- Every acknowledgement the receiver has transmitted. -/
  acks : List AckMsg
  /-- The sequence numbers the receiver consumed, in order. -/
  consumed : List UInt32
  /-- The sequence numbers of the retransmit entries the sender released, in order. -/
  released : List UInt32
  /-- How many frames the sender has published: its `tx_seq`, unwrapped. -/
  published : Nat
deriving DecidableEq, Repr

/-- Both channels fresh from `channel_init` on pool slots `slotS` and `slotR`, with the
credits every allocation path gives channel `channelId`. -/
def World.init (slotS slotR : WkiChannel) (channelId : UInt16) : World where
  sender := channelInit slotS channelId (defaultCreditsForChannel channelId)
  receiver := channelInit slotR channelId (defaultCreditsForChannel channelId)
  frames := []
  acks := []
  consumed := []
  released := []
  published := 0

/-- What can happen next. -/
inductive Action where
  /-- The sender sends a reliable frame with a payload of `len` bytes. -/
  | send (len : UInt16)
  /-- The sender retransmits the head of its retransmit list. -/
  | retransmit
  /-- The network delivers a frame it holds to the receiver. -/
  | deliver (f : Frame) (env : RxEnv)
  /-- The receiver's timer runs. -/
  | tick
  /-- The receiver transmits its cumulative ACK. -/
  | emitAck
  /-- The network delivers an acknowledgement it holds to the sender. -/
  | deliverAck (a : AckMsg)
deriving DecidableEq, Repr

/-- The acknowledgement the receiver transmits: its cumulative ACK, and its credits
capped at 255 for the 8-bit wire field. -/
def ackOf (ch : WkiChannel) (covers : Nat) : AckMsg :=
  ⟨ch.rxAckPending, (min ch.rxCredits 255).toUInt8, covers⟩

/-- One step of the system; `none` when the action is not enabled. -/
def World.step (w : World) : Action → Option World
  | .send len => (wkiSend w.sender len).map fun s =>
      { w with sender := s, frames := w.frames ++ [⟨w.sender.txSeq, len⟩], published := w.published + 1 }
  | .retransmit => w.sender.retransmit.head?.map fun f => { w with frames := w.frames ++ [f] }
  | .deliver f env =>
      if f ∈ w.frames then
        let r := rxReliable w.receiver f env
        some { w with receiver := r.1, consumed := w.consumed ++ r.2 }
      else none
  | .tick => some { w with receiver := timerTickReceive w.receiver }
  | .emitAck =>
      let a := ackOf w.receiver w.consumed.length
      some { w with receiver := completeAckTransmit w.receiver a.ackNum, acks := w.acks ++ [a] }
  | .deliverAck a =>
      if a ∈ w.acks then
        let r := processAck w.sender a.ackNum a.credits
        -- a fast retransmit sends the head of the list that is left
        let fast := if r.2.2 then r.1.retransmit.head?.toList else []
        some { w with sender := r.1, released := w.released ++ r.2.1.map (·.seq),
                      frames := w.frames ++ fast }
      else none

/-- A run: the actions in turn; `none` as soon as one is not enabled. -/
def World.run : World → List Action → Option World
  | w, [] => some w
  | w, a :: as => (w.step a).bind (·.run as)

@[simp] theorem World.run_nil (w : World) : w.run [] = some w := rfl

theorem World.run_cons (w : World) (a : Action) (as : List Action) :
    w.run (a :: as) = (w.step a).bind (·.run as) := rfl

theorem World.run_append (w : World) (as bs : List Action) :
    w.run (as ++ bs) = (w.run as).bind (·.run bs) := by
  induction as generalizing w with
  | nil => rfl
  | cons a as ih =>
    rw [List.cons_append, run_cons, run_cons]
    cases w.step a with
    | none => rfl
    | some w₁ => exact ih w₁

/-- An acknowledgement is delivered fresh when the sender has published fewer than
`2^32` frames past the position it covers, so that its 32-bit number cannot stand
for a later position. -/
def Action.fresh (w : World) : Action → Bool
  | .deliverAck a => decide (w.published < a.covers + 2 ^ 32)
  | _ => true

/-- Every acknowledgement delivered along the run is fresh. -/
def World.freshAlong : World → List Action → Bool
  | _, [] => true
  | w, a :: as =>
    a.fresh w && match w.step a with
      | some w' => w'.freshAlong as
      | none => true

/-- The first frame a run delivers to the receiver. -/
def firstDelivered : List Action → Option Frame
  | [] => none
  | .deliver f _ :: _ => some f
  | _ :: as => firstDelivered as

/-- **The delivery property**: the receiver has consumed `0, 1, 2, …` in order, with
no gap and no repeat, and the sender has released only what the receiver consumed. -/
def World.Delivered (w : World) : Prop :=
  w.consumed = names 0 w.consumed.length ∧ w.released <+: w.consumed

/-! ## The send half against the positions it names

`SendWindow ch rel P`: the sender has published positions `[0, P)` and released the
prefix `rel = [0, A)`; `tx_seq` and `tx_ack` name `P` and `A`, the retransmit list
holds the names of `[A, P)`, and the frames in flight and the credits left stay
within the channel's default credits. -/

/-- The send half of `ch` has published `published` positions and released `released`. -/
structure SendWindow (ch : WkiChannel) (released : List UInt32) (published : Nat) : Prop where
  released_eq : released = names 0 released.length
  released_le : released.length ≤ published
  txSeq_eq : ch.txSeq = UInt32.ofNat published
  txAck_eq : ch.txAck = UInt32.ofNat released.length
  retransmit_eq : ch.retransmit.map (·.seq) = names released.length (published - released.length)
  window : published - released.length + ch.txCredits.toNat ≤
    (defaultCreditsForChannel ch.channelId).toNat

theorem SendWindow.channelInit (slot : WkiChannel) (channelId : UInt16) :
    SendWindow (channelInit slot channelId (defaultCreditsForChannel channelId)) [] 0 :=
  ⟨rfl, le_refl 0, rfl, rfl, rfl, by simp [Wos.Wki.channelInit]⟩

/-- Fewer than `2^31` frames are in flight. -/
theorem SendWindow.inFlight_lt {ch : WkiChannel} {rel : List UInt32} {P : Nat}
    (h : SendWindow ch rel P) : P - rel.length < 2 ^ 31 := by
  have := h.window
  have := defaultCreditsForChannel_le ch.channelId
  omega

theorem SendWindow.length_retransmit {ch : WkiChannel} {rel : List UInt32} {P : Nat}
    (h : SendWindow ch rel P) : ch.retransmit.length = P - rel.length := by
  simpa using congrArg List.length h.retransmit_eq

/-- **A send publishes one more position** and spends the credit that makes room
for it in the window. -/
theorem SendWindow.wkiSend {ch ch' : WkiChannel} {rel : List UInt32} {P : Nat} {len : UInt16}
    (h : SendWindow ch rel P) (hs : Wos.Wki.wkiSend ch len = some ch') : SendWindow ch' rel (P + 1) := by
  obtain ⟨hseq, hack, hre, hcred, hid⟩ := wkiSend_spec hs
  have hP : P + 1 - rel.length = (P - rel.length) + 1 := by have := h.released_le; omega
  have hA : rel.length + (P - rel.length) = P := by have := h.released_le; omega
  refine ⟨h.released_eq, Nat.le_succ_of_le h.released_le, ?_, hack.trans h.txAck_eq, ?_, ?_⟩
  · rw [hseq, h.txSeq_eq]
    simp
  · rw [hre, List.map_append, h.retransmit_eq, h.txSeq_eq, hP, names_succ_right, hA]
    rfl
  · rw [hid]
    have := h.window
    omega

/-- After an acknowledgement the credits keep the window, whether the code left
them alone or refreshed them from the advertisement. -/
theorem processAck_window {ch : WkiChannel} {ackNum : UInt32} {credits : UInt8} {lo lo' hi : Nat}
    (hseq : (processAck ch ackNum credits).1.txSeq = UInt32.ofNat hi)
    (hack : (processAck ch ackNum credits).1.txAck = UInt32.ofNat lo')
    (hlo : lo ≤ lo') (hhi : lo' ≤ hi)
    (hwin : hi - lo + ch.txCredits.toNat ≤ (defaultCreditsForChannel ch.channelId).toNat) :
    hi - lo' + (processAck ch ackNum credits).1.txCredits.toNat ≤
      (defaultCreditsForChannel ch.channelId).toNat := by
  rcases processAck_txCredits ch ackNum credits with hc | hc
  · rw [hc]
    omega
  · rw [hc, ← processAck_channelId ch ackNum credits]
    exact refreshTxCredits_window credits hseq hack hhi (by rw [processAck_channelId]; omega)

/-- **An acknowledgement that names a position moves the window up to at most that
position.**  If `ackNum + 1` names position `covers` and the sender has published
fewer than `2^32` positions past it, the acknowledgement releases the names of a
prefix of the window that ends at `covers` at the latest. -/
theorem SendWindow.processAck {ch : WkiChannel} {rel : List UInt32} {P covers : Nat}
    {ackNum : UInt32} (credits : UInt8) (h : SendWindow ch rel P)
    (hnum : ackNum + 1 = UInt32.ofNat covers) (hfresh : P < covers + 2 ^ 32) :
    SendWindow (Wos.Wki.processAck ch ackNum credits).1
        (rel ++ (Wos.Wki.processAck ch ackNum credits).2.1.map (·.seq)) P ∧
      (rel ++ (Wos.Wki.processAck ch ackNum credits).2.1.map (·.seq)).length ≤ max rel.length covers := by
  have hsmall := h.inFlight_lt
  have hseq : (Wos.Wki.processAck ch ackNum credits).1.txSeq = UInt32.ofNat P := by
    rw [processAck_txSeq, h.txSeq_eq]
  rcases processAck_cases ch ackNum credits with ⟨hrel, hack, hre⟩ | ⟨hafter, hnot, hack, hrel⟩
  · rw [hrel, List.map_nil, List.append_nil]
    refine ⟨⟨h.released_eq, h.released_le, hseq, hack.trans h.txAck_eq, hre ▸ h.retransmit_eq, ?_⟩,
      le_max_left _ _⟩
    rw [processAck_channelId]
    exact processAck_window hseq (hack.trans h.txAck_eq) le_rfl h.released_le h.window
  · rw [h.txAck_eq, hnum] at hafter
    rw [h.txSeq_eq, hnum] at hnot
    obtain ⟨t, hlo, hhi, hcov⟩ := exists_of_window h.released_le (by omega) hafter hnot
    have ht : t ≤ covers := by
      have := congrArg UInt32.toNat hcov
      rw [UInt32.toNat_ofNat', UInt32.toNat_ofNat'] at this
      omega
    have hlen := h.length_retransmit
    have hl : ch.retransmit.map (·.seq) = names rel.length ch.retransmit.length := by
      rw [hlen]
      exact h.retransmit_eq
    rw [hnum, hcov, releaseAcked_names hl (by omega) (by omega) (by omega)] at hrel
    obtain ⟨hre, hrel⟩ := Prod.mk.inj hrel
    have hnames : rel ++ (Wos.Wki.processAck ch ackNum credits).2.1.map (·.seq) = names 0 t := by
      rw [hrel, List.map_take, h.retransmit_eq, names_take (by omega)]
      rw [append_eq_names h.released_eq (by simp), List.length_append, length_names]
      congr 1
      omega
    rw [hnames, length_names]
    refine ⟨⟨by simp, by simpa using hhi, hseq, hack.trans (by rw [hnum, hcov, length_names]), ?_, ?_⟩,
      by omega⟩
    · rw [length_names, hre, List.map_drop, h.retransmit_eq, names_drop]
      congr 1 <;> omega
    · rw [length_names, processAck_channelId]
      exact processAck_window hseq (hack.trans (by rw [hnum, hcov])) (Nat.le_of_lt hlo) hhi h.window

/-! ## The invariant of a run

`World.Inv`: the receiver expects position `C`, the number of frames it consumed,
and has consumed their names in order; the sender's window is as `SendWindow`
says, with `A ≤ C`; every acknowledgement the network holds covers a consumed
position and names it.  Each action keeps it (the resync and stale acknowledgements
aside), so every run from two fresh channels does. -/

/-- The invariant of a run without resync and without stale acknowledgements. -/
structure World.Inv (w : World) : Prop where
  send : SendWindow w.sender w.released w.published
  consumed_eq : w.consumed = names 0 w.consumed.length
  rxNext : RxNext w.receiver w.consumed.length
  released_le_consumed : w.released.length ≤ w.consumed.length
  acks_cover : ∀ a ∈ w.acks, a.covers ≤ w.consumed.length ∧ a.ackNum + 1 = UInt32.ofNat a.covers

theorem World.Inv.init (slotS slotR : WkiChannel) (channelId : UInt16) :
    (World.init slotS slotR channelId).Inv :=
  ⟨SendWindow.channelInit slotS channelId, rfl, rxNext_channelInit _ _ _, le_rfl, by simp [World.init]⟩

theorem World.Inv.delivered {w : World} (h : w.Inv) : w.Delivered := by
  refine ⟨h.consumed_eq, ?_⟩
  rw [h.consumed_eq, h.send.released_eq]
  exact names_prefix h.released_le_consumed

theorem RxNext.of_eq {ch ch' : WkiChannel} {n : Nat} (h : RxNext ch n) (hseq : ch'.rxSeq = ch.rxSeq)
    (hack : ch'.rxAckPending = ch.rxAckPending) : RxNext ch' n :=
  ⟨hseq.trans h.1, hack.trans h.2⟩

section Steps
variable {w w' : World}

theorem World.Inv.step_send {len : UInt16} (h : w.Inv) (hs : w.step (.send len) = some w') :
    w'.Inv := by
  obtain ⟨s, hsend, rfl⟩ := Option.map_eq_some_iff.mp hs
  exact ⟨h.send.wkiSend hsend, h.consumed_eq, h.rxNext, h.released_le_consumed, h.acks_cover⟩

theorem World.Inv.step_retransmit (h : w.Inv) (hs : w.step .retransmit = some w') : w'.Inv := by
  obtain ⟨f, -, rfl⟩ := Option.map_eq_some_iff.mp hs
  exact ⟨h.send, h.consumed_eq, h.rxNext, h.released_le_consumed, h.acks_cover⟩

/-- A delivery on which the resync does not fire appends the run of names the
receiver consumed to what it had consumed. -/
theorem World.Inv.step_deliver {f : Frame} {env : RxEnv} (h : w.Inv)
    (hres : resyncFires w.receiver f = false) (hs : w.step (.deliver f env) = some w') : w'.Inv := by
  simp only [World.step] at hs
  split at hs
  · obtain rfl := Option.some.inj hs
    obtain ⟨hc, -⟩ := rxReliable_consumes h.rxNext env hres
    have hlen : (w.consumed ++ (rxReliable w.receiver f env).2).length =
        w.consumed.length + (rxReliable w.receiver f env).2.length := List.length_append
    refine ⟨h.send, append_eq_names h.consumed_eq (by simpa using hc.names_eq), ?_, ?_, ?_⟩
    · rw [hlen]
      exact hc.next
    · show w.released.length ≤ _
      rw [hlen]
      exact Nat.le_add_right_of_le h.released_le_consumed
    · intro a ha
      obtain ⟨hcov, hnum⟩ := h.acks_cover a ha
      exact ⟨by rw [hlen]; exact Nat.le_add_right_of_le hcov, hnum⟩
  · cases hs

theorem World.Inv.step_tick (h : w.Inv) (hs : w.step .tick = some w') : w'.Inv := by
  obtain rfl := Option.some.inj hs
  exact ⟨h.send, h.consumed_eq, h.rxNext.of_eq (by simp) (by simp), h.released_le_consumed,
    h.acks_cover⟩

/-- The acknowledgement the receiver sends covers what it consumed, and names it. -/
theorem World.Inv.step_emitAck (h : w.Inv) (hs : w.step .emitAck = some w') : w'.Inv := by
  obtain rfl := Option.some.inj hs
  refine ⟨h.send, h.consumed_eq, h.rxNext.of_eq (by simp) (by simp), h.released_le_consumed, ?_⟩
  intro a ha
  rcases List.mem_append.mp ha with ha | ha
  · exact h.acks_cover a ha
  · rw [List.mem_singleton] at ha
    subst ha
    exact ⟨le_rfl, by simp [ackOf, h.rxNext.2]⟩

/-- A fresh acknowledgement moves the sender's window up to at most the position it
covers, which the receiver has consumed. -/
theorem World.Inv.step_deliverAck {a : AckMsg} (h : w.Inv) (hfresh : w.published < a.covers + 2 ^ 32)
    (hs : w.step (.deliverAck a) = some w') : w'.Inv := by
  simp only [World.step] at hs
  split at hs
  · rename_i ha
    obtain rfl := Option.some.inj hs
    obtain ⟨hcov, hnum⟩ := h.acks_cover a ha
    obtain ⟨hsend, hle⟩ := h.send.processAck a.credits hnum hfresh
    refine ⟨hsend, h.consumed_eq, h.rxNext, ?_, h.acks_cover⟩
    have := h.released_le_consumed
    show (w.released ++ _).length ≤ w.consumed.length
    omega
  · cases hs

/-- **One step keeps the invariant**, unless it is a delivery on which the resync
fires or the delivery of a stale acknowledgement. -/
theorem World.Inv.step {a : Action} (h : w.Inv)
    (hres : ∀ f env, a = .deliver f env → resyncFires w.receiver f = false)
    (hfresh : a.fresh w = true) (hs : w.step a = some w') : w'.Inv := by
  cases a with
  | send len => exact h.step_send hs
  | retransmit => exact h.step_retransmit hs
  | deliver f env => exact h.step_deliver (hres f env rfl) hs
  | tick => exact h.step_tick hs
  | emitAck => exact h.step_emitAck hs
  | deliverAck a => exact h.step_deliverAck (by simpa [Action.fresh] using hfresh) hs

end Steps

/-- The resync cannot fire along the actions `as` from `w`: the channel does not
allow it, the receiver has observed a frame already, or the first frame delivered
is number `0`. -/
def World.NoResync (w : World) (as : List Action) : Prop :=
  channelAllowsInitialResync w.receiver.channelId = false ∨ w.receiver.rxBaselineInitialized = true ∨
    (firstDelivered as).all (·.seq == 0) = true

theorem World.NoResync.resyncFires {w : World} {f : Frame} {env : RxEnv} {as : List Action}
    (h : w.NoResync (.deliver f env :: as)) : resyncFires w.receiver f = false := by
  unfold Wos.Wki.resyncFires
  rcases h with h | h | h
  · simp [h]
  · simp [h]
  · simp only [firstDelivered, Option.all_some, beq_iff_eq] at h
    simp [h]

/-- After a delivery the receiver has observed a frame; no other action touches the
flag or the channel id. -/
theorem World.NoResync.step {w w' : World} {a : Action} {as : List Action} (hinv : w.Inv)
    (h : w.NoResync (a :: as)) (hs : w.step a = some w') : w'.NoResync as := by
  cases a with
  | deliver f env =>
    simp only [World.step] at hs
    split at hs
    · obtain rfl := Option.some.inj hs
      exact Or.inr (Or.inl (rxReliable_consumes hinv.rxNext env h.resyncFires).2)
    · cases hs
  | send len =>
    obtain ⟨s, -, rfl⟩ := Option.map_eq_some_iff.mp hs
    simpa [World.NoResync, firstDelivered] using h
  | retransmit =>
    obtain ⟨f, -, rfl⟩ := Option.map_eq_some_iff.mp hs
    simpa [World.NoResync, firstDelivered] using h
  | tick =>
    obtain rfl := Option.some.inj hs
    simpa [World.NoResync, firstDelivered] using h
  | emitAck =>
    obtain rfl := Option.some.inj hs
    simpa [World.NoResync, firstDelivered] using h
  | deliverAck a =>
    simp only [World.step] at hs
    split at hs
    · obtain rfl := Option.some.inj hs
      simpa [World.NoResync, firstDelivered] using h
    · cases hs

/-- **Every run keeps the invariant** as long as the resync cannot fire and every
acknowledgement delivered is fresh. -/
theorem World.Inv.run {w w' : World} {as : List Action} (h : w.Inv) (hres : w.NoResync as)
    (hfresh : w.freshAlong as = true) (hrun : w.run as = some w') : w'.Inv := by
  induction as generalizing w with
  | nil =>
    obtain rfl := Option.some.inj hrun
    exact h
  | cons a as ih =>
    obtain ⟨w₁, hs, hrun⟩ := Option.bind_eq_some_iff.mp hrun
    simp only [World.freshAlong, hs, Bool.and_eq_true] at hfresh
    have hres₁ : ∀ f env, a = .deliver f env → resyncFires w.receiver f = false := by
      rintro f env rfl
      exact hres.resyncFires
    exact ih (h.step hres₁ hfresh.1 hs) (hres.step h hs) hfresh.2 hrun

/-- **In-order delivery and safe release, end to end.**  Along every run from two
fresh channels over the lossy network, on which the reconnect resync cannot fire
(the channel is IPC data, or the first frame the receiver observes is number `0`)
and every acknowledgement delivered is fresh, the receiver consumes `0, 1, 2, …`
in order with no gap and no repeat, and the sender releases only what the receiver
has consumed. -/
theorem reliable_channel_delivers_in_order {slotS slotR : WkiChannel} {channelId : UInt16}
    {as : List Action} {w : World}
    (hresync : channelAllowsInitialResync channelId = false ∨
      (firstDelivered as).all (·.seq == 0) = true)
    (hfresh : (World.init slotS slotR channelId).freshAlong as = true)
    (hrun : (World.init slotS slotR channelId).run as = some w) : w.Delivered := by
  have hres : (World.init slotS slotR channelId).NoResync as := by
    rcases hresync with h | h
    · exact Or.inl h
    · exact Or.inr (Or.inr h)
  exact ((World.Inv.init slotS slotR channelId).run hres hfresh hrun).delivered

theorem reliable_channel_delivers_in_order_ipc :
    ∃ w, (World.init .unallocated .unallocated chanIpcData).run
        [.send 5, .send 7, .deliver ⟨1, 7⟩ ⟨true, 4, true⟩, .deliver ⟨0, 5⟩ ⟨true, 4, true⟩, .emitAck,
         .deliverAck ⟨1, 255, 2⟩] = some w ∧ w.Delivered := by
  obtain ⟨w, hrun⟩ : ∃ w, (World.init .unallocated .unallocated chanIpcData).run
      [.send 5, .send 7, .deliver ⟨1, 7⟩ ⟨true, 4, true⟩, .deliver ⟨0, 5⟩ ⟨true, 4, true⟩, .emitAck,
       .deliverAck ⟨1, 255, 2⟩] = some w := ⟨_, rfl⟩
  exact ⟨w, hrun, reliable_channel_delivers_in_order (Or.inl rfl) (by decide) hrun⟩

/-- **The resync breaks in-order delivery.**  On the control channel the sender sends
frames `0` and `1`, and the network delivers only frame `1`: the fresh receiver adopts
`1` as its baseline and consumes it, and its acknowledgement releases both
retransmit entries, `0` among them, which the receiver never consumed. -/
theorem reliable_channel_resync_breaks_order :
    ¬ ∀ (slotS slotR : WkiChannel) (channelId : UInt16) (as : List Action) (w : World),
      (World.init slotS slotR channelId).run as = some w → w.Delivered := by
  intro h
  have hd := h .unallocated .unallocated chanControl
    [.send 1, .send 1, .deliver ⟨1, 1⟩ ⟨true, 0, true⟩, .emitAck, .deliverAck ⟨1, 64, 1⟩] _ rfl
  -- the receiver consumed number `1` alone, and not number `0`
  exact absurd hd.1 (by decide)

/-! ## A stale acknowledgement after the sequence space wraps

Freshness cannot be dropped either, even on the IPC data channel where the resync
never fires.  The receiver's first acknowledgement, `WKI_ACK_NONE`, is held back
while `2^32 - 1` frames are sent, consumed and acknowledged one at a time.  Then
`tx_ack` is `0xFFFFFFFF`, one more frame is sent, and the old acknowledgement
arrives: `WKI_ACK_NONE + 1 = 0` follows `tx_ack` and does not follow `tx_seq = 0`,
so the sender releases frame `0xFFFFFFFF`, which the receiver never saw. -/

/-- The frames sent in the first `n` rounds. -/
def lapFrames (n : Nat) : List Frame := (names 0 n).map (⟨·, 0⟩)

/-- The held-back first acknowledgement, and those of the first `n` rounds. -/
def lapAcks (n : Nat) : List AckMsg :=
  ⟨ackNone, 255, 0⟩ :: (List.range n).map fun j => ⟨UInt32.ofNat j, 255, j + 1⟩

/-- Round `i`: send an empty frame, deliver it, acknowledge it, deliver the
acknowledgement. -/
def lapRound (i : Nat) : List Action :=
  [.send 0, .deliver ⟨UInt32.ofNat i, 0⟩ ⟨true, 0, true⟩, .emitAck,
    .deliverAck ⟨UInt32.ofNat i, 255, i + 1⟩]

/-- The world after the first acknowledgement and rounds `0` to `n`. -/
def lapWorld (n : Nat) : World where
  sender := { channelInit .unallocated chanIpcData 255 with
    txSeq := UInt32.ofNat (n + 1), txAck := UInt32.ofNat (n + 1), lastDupAck := UInt32.ofNat n }
  receiver := { channelInit .unallocated chanIpcData 255 with
    rxSeq := UInt32.ofNat (n + 1), rxAckPending := UInt32.ofNat n, rxBaselineInitialized := true }
  frames := lapFrames (n + 1)
  acks := lapAcks (n + 1)
  consumed := names 0 (n + 1)
  released := names 0 (n + 1)
  published := n + 1

theorem seqAfter_self (a : UInt32) : seqAfter a a = false := by
  simp [seqAfter, seqBefore, precedes_iff_toNat]

theorem seqAfter_add_one (a : UInt32) : seqAfter (a + 1) a = true := by
  simp [seqAfter, seqBefore, precedes_iff_toNat, sub_add_cancel_left]

/-- One round moves the lap one position on: frame `n + 1` is consumed, acknowledged
and released, and the credits come back in full. -/
theorem lapWorld_round (n : Nat) : (lapWorld n).run (lapRound (n + 1)) = some (lapWorld (n + 1)) := by
  -- execute the four actions: IPC data has no resync, the reorder list stays empty,
  -- and each acknowledgement names the position after `tx_ack`
  simp +decide [lapRound, World.run, World.step, lapWorld, lapFrames, lapAcks, channelInit,
    names_succ_right, List.range_succ, wkiSend, rxReliable, resyncFires, channelAllowsInitialResync,
    chanIpcData, consumeInOrder, consumeFrame, dropStaleReorderEntries, dropStale, drainReorder, ackOf,
    completeAckTransmit, processAck, seqAfter_self, seqAfter_add_one, releaseAcked,
    refreshTxCreditsFromAdvertisement, defaultCreditsForChannel]

theorem lapWorld_run (n : Nat) :
    (lapWorld 0).run ((List.range n).flatMap fun i => lapRound (i + 1)) = some (lapWorld n) := by
  induction n with
  | zero => rfl
  | succ n ih =>
    rw [List.range_succ, List.flatMap_append, World.run_append, ih, Option.bind_some,
      List.flatMap_singleton, lapWorld_round]

/-- **A stale acknowledgement releases an unconsumed frame**, on a channel where the
resync cannot fire. -/
theorem stale_ack_releases_unconsumed :
    ¬ ∀ (slotS slotR : WkiChannel) (channelId : UInt16) (as : List Action) (w : World),
      channelAllowsInitialResync channelId = false →
      (World.init slotS slotR channelId).run as = some w → w.Delivered := by
  intro h
  have hlap : (World.init .unallocated .unallocated chanIpcData).run
      ((.emitAck :: lapRound 0) ++ (List.range (2 ^ 32 - 2)).flatMap fun i => lapRound (i + 1)) =
      some (lapWorld (2 ^ 32 - 2)) := by
    rw [World.run_append, show (World.init .unallocated .unallocated chanIpcData).run
      (.emitAck :: lapRound 0) = some (lapWorld 0) by decide, Option.bind_some, lapWorld_run]
  -- one more send wraps `tx_seq` to `0`; then the held-back acknowledgement arrives
  have hlast : ((lapWorld (2 ^ 32 - 2)).run [.send 0, .deliverAck ⟨ackNone, 255, 0⟩]).map
      (fun w => (w.consumed.length, w.released.length)) = some (2 ^ 32 - 1, 2 ^ 32) := by
    have hwrap : seqAfter 0 0xFFFFFFFF = true := by decide
    simp [World.run, World.step, wkiSend, lapWorld, processAck, seqAfter_self, releaseAcked, ackNone,
      channelInit, lapAcks, hwrap]
  obtain ⟨w, hw, heq⟩ := Option.map_eq_some_iff.mp hlast
  have hd := h _ _ chanIpcData _ w rfl (by rw [World.run_append, hlap, Option.bind_some]; exact hw)
  have := hd.2.length_le
  simp only [Prod.mk.injEq] at heq
  omega

end Wos.Wki
