import Mathlib
import WosKernel.TcpSend

/-! # Resets in the TCP input path

`tcp_process_segment` (net/proto/tcp_input.cpp) switches on the connection's
state.  In `SYN_SENT` a SYN-ACK whose acknowledgement is `snd_nxt` establishes the
connection, and any other segment with RST closes it.  In each synchronized state
(`SYN_RECEIVED`, `ESTABLISHED`, `CLOSE_WAIT`, `FIN_WAIT_1`, `FIN_WAIT_2`) the first
test of the branch is the RST bit: it drains the retransmit queue and closes the
connection.  None of these branches looks at the segment's sequence number, and
`tcp_rx` does not filter resets before the call, so a reset anywhere in the
sequence space closes a synchronized connection (`tcpProcessSegment_rst_synchronized`),
and a reset without ACK closes one in `SYN_SENT` (`tcpProcessSegment_rst_synSent`).

What a synchronized state does with a segment without RST (acknowledgements,
payload, FIN, the `LISTEN`, `CLOSING`, `LAST_ACK` and `TIME_WAIT` branches) is left
as the parameter `stream` of the model: every result here holds for each choice
of it.  Options, timers, RTT sampling and the socket wake-ups are not modelled.
-/

namespace Wos.TcpInput

open SerialNumber
open Wos.Tcp (TcpState tcpSyn tcpAck)

def tcpRst : UInt8 := 0x04

/-- A retransmit queue entry: the segment's first sequence number and its length. -/
structure RetransmitEntry where
  seq : UInt32
  len : Nat
deriving DecidableEq, Repr

/-- The fields of `TcpCB` that the handshake and reset branches read and write,
with the code's defaults. -/
structure TcpCB where
  state : TcpState := .closed
  irs : UInt32 := 0
  rcvNxt : UInt32 := 0
  rcvWnd : UInt32 := 0
  sndUna : UInt32 := 0
  sndNxt : UInt32 := 0
  sndWnd : UInt32 := 0
  retransmit : List RetransmitEntry := []
  keepaliveDeadline : Nat := 0
deriving DecidableEq, Repr

/-- The header fields `tcp_process_segment` reads, in host order. -/
structure Segment where
  flags : UInt8
  seq : UInt32
  ack : UInt32
  window : UInt16
deriving DecidableEq, Repr

/-- `(flags & flag) != 0`. -/
def Segment.has (seg : Segment) (flag : UInt8) : Bool := seg.flags &&& flag != 0

/-- `tcp_seq_after(a, b)`, that is `tcp_seq_before(b, a)`. -/
def tcpSeqAfter (a b : UInt32) : Bool := decide (Precedes b a)

/-- `retire_acked_retransmits_locked`: pop the entries the acknowledgement covers
from the head of the queue, stopping at the first whose end is after it. -/
def retireAckedRetransmits (segAck : UInt32) : List RetransmitEntry → List RetransmitEntry
  | [] => []
  | entry :: rest =>
    if tcpSeqAfter (entry.seq + UInt32.ofNat entry.len) segAck then entry :: rest
    else retireAckedRetransmits segAck rest

/-- `drain_retransmit_queue`, and the loop `SYN_RECEIVED` and `ESTABLISHED` inline. -/
def drainRetransmitQueue (cb : TcpCB) : TcpCB := { cb with retransmit := [] }

/-- The `SYN_SENT` branch of `tcp_process_segment`.  The SYN-ACK path also parses
the peer's options and sends the ACK, which are not modelled. -/
def synSent (cb : TcpCB) (seg : Segment) : TcpCB :=
  if seg.has tcpAck && seg.has tcpSyn then
    if seg.ack = cb.sndNxt then
      { cb with irs := seg.seq, rcvNxt := seg.seq + 1, sndUna := seg.ack,
                sndWnd := seg.window.toUInt32,
                retransmit := retireAckedRetransmits seg.ack cb.retransmit,
                state := .established }
    else cb
  else if seg.has tcpRst then { cb with state := .closed }
  else cb

/-- `tcp_process_segment`, for every state up to the stream processing `stream`. -/
def tcpProcessSegment (stream : TcpCB → Segment → TcpCB) (cb : TcpCB) (seg : Segment) : TcpCB :=
  match cb.state with
  | .synSent => synSent cb seg
  | .synReceived =>
    if seg.has tcpRst then { drainRetransmitQueue cb with state := .closed } else stream cb seg
  | .established =>
    if seg.has tcpRst then { drainRetransmitQueue cb with state := .closed, keepaliveDeadline := 0 }
    else stream cb seg
  | .closeWait =>
    if seg.has tcpRst then { drainRetransmitQueue cb with state := .closed, keepaliveDeadline := 0 }
    else stream cb seg
  | .finWait1 =>
    if seg.has tcpRst then { drainRetransmitQueue cb with state := .closed } else stream cb seg
  | .finWait2 =>
    if seg.has tcpRst then { drainRetransmitQueue cb with state := .closed } else stream cb seg
  | _ => stream cb seg

/-- The states RFC 793 calls synchronized, as far as `tcp_process_segment` has a
reset branch for them. -/
def synchronized : TcpState → Bool
  | .synReceived | .established | .closeWait | .finWait1 | .finWait2 => true
  | _ => false

/-- RFC 5961 §3.2: a reset is acceptable in a synchronized state when its sequence
number lies in `[rcv_nxt, rcv_nxt + max(rcv_wnd, 1))`, modulo `2^32`. -/
def RstInWindow (cb : TcpCB) (seg : Segment) : Prop :=
  (seg.seq - cb.rcvNxt).toNat < max cb.rcvWnd.toNat 1

instance (cb : TcpCB) (seg : Segment) : Decidable (RstInWindow cb seg) := by
  unfold RstInWindow; infer_instance

/-! ## The reset branches -/

/-- Every reset closes a synchronized connection and drains its retransmit queue,
whatever its sequence number and whatever the stream processing does. -/
theorem tcpProcessSegment_rst_synchronized (stream : TcpCB → Segment → TcpCB) {cb : TcpCB}
    {seg : Segment} (hsync : synchronized cb.state = true) (hrst : seg.has tcpRst = true) :
    (tcpProcessSegment stream cb seg).state = .closed ∧
      (tcpProcessSegment stream cb seg).retransmit = [] := by
  cases hs : cb.state <;> simp_all [synchronized, tcpProcessSegment, drainRetransmitQueue]

/-- In `SYN_SENT`, a reset that is not also a SYN-ACK closes the connection and
changes nothing else, whether or not it acknowledges `snd_nxt`. -/
theorem tcpProcessSegment_rst_synSent (stream : TcpCB → Segment → TcpCB) {cb : TcpCB}
    {seg : Segment} (hs : cb.state = .synSent) (hrst : seg.has tcpRst = true)
    (hsynack : (seg.has tcpAck && seg.has tcpSyn) = false) :
    tcpProcessSegment stream cb seg = { cb with state := .closed } := by
  simp [tcpProcessSegment, hs, synSent, hsynack, hrst]

/-- In `SYN_SENT`, a SYN-ACK acknowledging `snd_nxt` establishes the connection
whether or not it also carries RST. -/
theorem tcpProcessSegment_synAck_synSent (stream : TcpCB → Segment → TcpCB) {cb : TcpCB}
    {seg : Segment} (hs : cb.state = .synSent)
    (hsynack : (seg.has tcpAck && seg.has tcpSyn) = true) (hack : seg.ack = cb.sndNxt) :
    (tcpProcessSegment stream cb seg).state = .established ∧
      (tcpProcessSegment stream cb seg).rcvNxt = seg.seq + 1 := by
  simp [tcpProcessSegment, hs, synSent, hsynack, hack]

/-- A synchronized connection with `rcv_nxt = 1000` and a full window. -/
def establishedAt1000 : TcpCB :=
  { state := .established, irs := 999, rcvNxt := 1000, rcvWnd := 65535, sndUna := 1, sndNxt := 1,
    sndWnd := 65535, retransmit := [⟨1, 0⟩] }

/-- A connection that has sent its SYN with initial sequence number `0`. -/
def synSentAt0 : TcpCB := { state := .synSent, sndUna := 0, sndNxt := 1, retransmit := [⟨0, 1⟩] }

/-- A reset at sequence number `0` without ACK. -/
def bareRstAt0 : Segment := ⟨tcpRst, 0, 0, 0⟩

theorem tcp_rst_accepted_without_window_check (stream : TcpCB → Segment → TcpCB) :
    (tcpProcessSegment stream establishedAt1000 bareRstAt0).state = .closed ∧
      (tcpProcessSegment stream establishedAt1000 bareRstAt0).retransmit = [] ∧
      ¬RstInWindow establishedAt1000 bareRstAt0 ∧
      (tcpProcessSegment stream synSentAt0 bareRstAt0).state = .closed ∧
      bareRstAt0.has tcpAck = false := by
  refine ⟨(tcpProcessSegment_rst_synchronized stream rfl rfl).1,
    (tcpProcessSegment_rst_synchronized stream rfl rfl).2, by decide, ?_, by decide⟩
  rw [tcpProcessSegment_rst_synSent stream rfl rfl rfl]

end Wos.TcpInput
