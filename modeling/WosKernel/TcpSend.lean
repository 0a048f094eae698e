import Mathlib
import WosKernel.SerialNumber

/-! # The TCP send path against peer-chosen options

A connection's control block (`TcpCB`) stores the maximum segment size and the
window shift that the peer announces in its SYN or SYN-ACK (`parseSynOptions`).
`tcp_send` cuts the caller's bytes into chunks no larger than that MSS, the burst
budget and the send window, and hands each to `tcp_send_segment`, which appends
header, options and chunk to a packet buffer of `PKT_BUF_SIZE` bytes after
`PKT_HEADROOM` bytes of headroom, with no bounds check.  Each ACK resets the send
window to the peer's 16-bit window shifted by the stored shift.

The option parser itself only reads inside the options (`parseSynOptions_isSome`),
our own advertised shift is at most 14 (`tcpWscaleForBuf_le`), and every chunk is
bounded by the MSS and the burst budget (`tcpSend_segmentBounded`), so a
peer MSS of at most `PKT_BUF_SIZE - PKT_HEADROOM - 20` keeps every segment inside
its buffer (`tcpSend_fits_of_mss_le`).  Nothing bounds what the peer announces,
though: a SYN-ACK with MSS `65535` and shift `255` leads to a segment of more than
`PKT_BUF_SIZE` bytes and to a shift of a 32-bit window by `255` bits
(`tcp_peer_options_overflow_send_path`).

The packet bytes themselves, checksums, the retransmit queue and the receive path
are not modelled; a segment is its flags and its payload length.
-/

namespace Wos.Tcp

open SerialNumber

/-! ## Constants -/

def pktBufSize : Nat := 10240
def pktHeadroom : Nat := 128
/-- `sizeof(TcpHeader)`. -/
def tcpHeaderSize : Nat := 20
def tcpSendBurstBytes : Nat := 1024 * 1024
def tcpSynOptionsLen : Nat := 12

def tcpFin : UInt8 := 0x01
def tcpSyn : UInt8 := 0x02
def tcpPsh : UInt8 := 0x08
def tcpAck : UInt8 := 0x10

def tcpOptionEol : UInt8 := 0
def tcpOptionNop : UInt8 := 1
def tcpOptionMss : UInt8 := 2
def tcpOptionWscale : UInt8 := 3
def tcpOptionSackPermitted : UInt8 := 4
def tcpOptionMssLen : UInt8 := 4
def tcpOptionWscaleLen : UInt8 := 3
def tcpOptionSackPermittedLen : UInt8 := 2
def tcpOptionLenOffset : Nat := 1
def tcpOptionDataOffset : Nat := 2

inductive TcpState where
  | closed | listen | synSent | synReceived | established | finWait1 | finWait2 | closeWait
  | closing | lastAck | timeWait
deriving DecidableEq, Repr

/-- The errors `tcp_send` returns (negated in the code). -/
inductive Errno where
  | eagain | enotconn | einprogress
deriving DecidableEq, Repr

/-- The fields of `TcpCB` the send path reads and writes, with the code's defaults. -/
structure TcpCB where
  state : TcpState := .closed
  sndUna : UInt32 := 0
  sndNxt : UInt32 := 0
  sndWnd : UInt32 := 0
  sndMss : UInt16 := 536
  rcvWscale : UInt8 := 0
  sndWscale : UInt8 := 0
  wsEnabled : Bool := false
  sackPermitted : Bool := false
deriving DecidableEq, Repr

/-! ## Our advertised shift -/

/-- The loop of `tcp_wscale_for_buf` from shift `s`.  It stops at `14` at the latest,
so `fuel = 14` from `0` runs it to its end. -/
def wscaleLoop (bufSize : Nat) : Nat → Nat → Nat
  | 0, s => s
  | fuel + 1, s => if s < 14 ∧ bufSize >>> s > 65535 then wscaleLoop bufSize fuel (s + 1) else s

/-- `tcp_wscale_for_buf`: the least shift, at most `14`, that brings the buffer size
under `65536`. -/
def tcpWscaleForBuf (bufSize : Nat) : UInt8 := UInt8.ofNat (wscaleLoop bufSize 14 0)

theorem wscaleLoop_le (bufSize : Nat) {s : Nat} (fuel : Nat) (hs : s ≤ 14) : wscaleLoop bufSize fuel s ≤ 14 := by
  induction fuel generalizing s with
  | zero => exact hs
  | succ fuel ih =>
    rw [wscaleLoop]
    split_ifs with h
    · exact ih (by omega)
    · exact hs

/-- **Our own shift is at most 14**, as RFC 7323 requires. -/
theorem tcpWscaleForBuf_le (bufSize : Nat) : (tcpWscaleForBuf bufSize).toNat ≤ 14 := by
  have h := wscaleLoop_le bufSize 14 (Nat.zero_le 14)
  rw [tcpWscaleForBuf, UInt8.toNat_ofNat', Nat.mod_eq_of_lt (by omega)]
  exact h

/-! ## Parsing the peer's options -/

/-- `read_be16_unaligned`. -/
def readBe16Unaligned (hi lo : UInt8) : UInt16 := (hi.toUInt16 <<< 8) ||| lo.toUInt16

/-- `tcp_header_len`: the header length the data-offset byte (byte `12`) announces. -/
def tcpHeaderLen (hdr : List UInt8) : Nat := ((hdr.getD 12 0) >>> 4).toNat * 4

/-- The body of the option loop for an option of kind `kind` and length `optLen` at
offset `i` of `opts`.  Each read is `opts[k]?`: `none` is a read past the bytes. -/
def applySynOption (opts : List UInt8) (refresh : Option UInt8) (cb : TcpCB) (i : Nat)
    (kind optLen : UInt8) : Option TcpCB :=
  if kind = tcpOptionMss ∧ optLen = tcpOptionMssLen then
    match opts[i + tcpOptionDataOffset]?, opts[i + tcpOptionDataOffset + 1]? with
    | some hi, some lo => some { cb with sndMss := readBe16Unaligned hi lo }
    | _, _ => none
  else if kind = tcpOptionSackPermitted ∧ optLen = tcpOptionSackPermittedLen then
    some { cb with sackPermitted := true }
  else if kind = tcpOptionWscale ∧ optLen = tcpOptionWscaleLen then
    match opts[i + tcpOptionDataOffset]? with
    -- the shift is stored as received: nothing clamps it to 14
    | some s => some { cb with sndWscale := s, wsEnabled := true, rcvWscale := refresh.getD cb.rcvWscale }
    | none => none
  else some cb

/-- The option loop of `parse_syn_options` from offset `i`, over `optsLen` option
bytes.  `refresh` is the receive shift recomputed for the socket when the caller
asks for it and the connection has one.  Each pass advances `i`, so
`fuel = optsLen` runs the loop to its end. -/
def parseOptionsFrom (opts : List UInt8) (optsLen : Nat) (refresh : Option UInt8) :
    Nat → TcpCB → Nat → Option TcpCB
  | 0, cb, _ => some cb
  | fuel + 1, cb, i =>
    if i < optsLen then
      match opts[i]? with
      | none => none
      | some kind =>
        if kind = tcpOptionEol then some cb
        else if kind = tcpOptionNop then parseOptionsFrom opts optsLen refresh fuel cb (i + 1)
        else if i + tcpOptionLenOffset ≥ optsLen then some cb
        else
          match opts[i + tcpOptionLenOffset]? with
          | none => none
          | some optLen =>
            if optLen.toNat < tcpOptionDataOffset ∨ i + optLen.toNat > optsLen then some cb
            else
              match applySynOption opts refresh cb i kind optLen with
              | none => none
              | some cb' => parseOptionsFrom opts optsLen refresh fuel cb' (i + optLen.toNat)
    else some cb

/-- `parse_syn_options` on a received segment `hdr` (its TCP header first): the
options are the header bytes after the fixed twenty. -/
def parseSynOptions (cb : TcpCB) (hdr : List UInt8) (refresh : Option UInt8) : Option TcpCB :=
  let hdrLen := tcpHeaderLen hdr
  if hdrLen ≤ tcpHeaderSize then some cb
  else parseOptionsFrom (hdr.drop tcpHeaderSize) (hdrLen - tcpHeaderSize) refresh (hdrLen - tcpHeaderSize) cb 0

/-- The option body reads inside the option when the option lies inside the bytes. -/
theorem applySynOption_isSome {opts : List UInt8} {refresh : Option UInt8} {cb : TcpCB} {i : Nat}
    {kind optLen : UInt8} (h : i + optLen.toNat ≤ opts.length) :
    (applySynOption opts refresh cb i kind optLen).isSome := by
  unfold applySynOption
  split_ifs with hmss hsack hws
  · -- the MSS option has length 4: both value bytes are inside
    have hlen : optLen.toNat = 4 := by rw [hmss.2]; rfl
    rw [List.getElem?_eq_getElem (by simp only [tcpOptionDataOffset]; omega),
      List.getElem?_eq_getElem (by simp only [tcpOptionDataOffset]; omega)]
    rfl
  · rfl
  · have hlen : optLen.toNat = 3 := by rw [hws.2]; rfl
    rw [List.getElem?_eq_getElem (by simp only [tcpOptionDataOffset]; omega)]
    rfl
  · rfl

/-- The option loop reads only inside the options, provided the bytes hold them. -/
theorem parseOptionsFrom_isSome {opts : List UInt8} {optsLen : Nat} {refresh : Option UInt8}
    (hlen : optsLen ≤ opts.length) (fuel : Nat) (cb : TcpCB) (i : Nat) :
    (parseOptionsFrom opts optsLen refresh fuel cb i).isSome := by
  -- the kind and length reads are in bounds by the loop's guards, the option body's
  -- by `applySynOption_isSome`
  induction fuel generalizing cb i with
  | zero => rfl
  | succ fuel ih =>
    rw [parseOptionsFrom]
    by_cases hi : i < optsLen
    · rw [if_pos hi, List.getElem?_eq_getElem (by omega)]
      dsimp only
      split_ifs with heol hnop hend
      · rfl
      · exact ih cb (i + 1)
      · rfl
      · have hnext : i + tcpOptionLenOffset < opts.length := by
          simp only [tcpOptionLenOffset] at hend ⊢; omega
        rw [List.getElem?_eq_getElem hnext]
        dsimp only
        split_ifs with hbad
        · rfl
        · have hsome := @applySynOption_isSome opts refresh cb i opts[i] opts[i + tcpOptionLenOffset]
            (by simp only [tcpOptionDataOffset] at hbad; omega)
          rcases happly : applySynOption opts refresh cb i opts[i] opts[i + tcpOptionLenOffset] with _ | cb'
          · rw [happly] at hsome; cases hsome
          · exact ih cb' _
    · rw [if_neg hi]
      rfl

/-- **`parse_syn_options` reads only inside the segment** whenever the header length
it announces fits the segment, which `tcp_rx` checks before any option is parsed. -/
theorem parseSynOptions_isSome (cb : TcpCB) {hdr : List UInt8} (refresh : Option UInt8)
    (h : tcpHeaderLen hdr ≤ hdr.length) : (parseSynOptions cb hdr refresh).isSome := by
  unfold parseSynOptions
  dsimp only
  split_ifs with hshort
  · rfl
  · exact parseOptionsFrom_isSome (by simp only [List.length_drop]; omega) _ cb 0

/-! ## Sending -/

/-- `tcp_send_available_bytes`: the send window left after the bytes in flight. -/
def tcpSendAvailableBytes (cb : TcpCB) : UInt32 :=
  let inFlight := cb.sndNxt - cb.sndUna
  if inFlight ≥ cb.sndWnd then 0 else cb.sndWnd - inFlight

/-- A segment `tcp_send_segment` builds: its flags and payload length. -/
structure Segment where
  flags : UInt8
  len : Nat
deriving DecidableEq, Repr

/-- The options a segment carries: MSS, SACK-permitted and shift on a SYN. -/
def Segment.optsLen (s : Segment) : Nat := if s.flags &&& tcpSyn ≠ 0 then tcpSynOptionsLen else 0

/-- `TOTAL`, the bytes `pkt->put` appends after the headroom. -/
def Segment.total (s : Segment) : Nat := tcpHeaderSize + s.optsLen + s.len

/-- `pkt->put(TOTAL)` and the payload copy stay inside `PacketBuffer::storage`. -/
def Segment.Fits (s : Segment) : Prop := pktHeadroom + s.total ≤ pktBufSize

instance (s : Segment) : Decidable s.Fits := inferInstanceAs (Decidable (_ ≤ _))

/-- `tcp_send_segment`'s effect on the control block: the payload, and a FIN, take
sequence space. -/
def tcpSendSegment (cb : TcpCB) (flags : UInt8) (len : Nat) : TcpCB :=
  let cb₁ := if len > 0 then { cb with sndNxt := cb.sndNxt + UInt32.ofNat len } else cb
  if flags &&& tcpFin ≠ 0 then { cb₁ with sndNxt := cb₁.sndNxt + 1 } else cb₁

/-- What a `tcp_send` call leaves: the control block, the segments it handed to
`tcp_send_segment`, and its return value. -/
structure SendOutcome where
  cb : TcpCB
  segments : List Segment
  ret : Except Errno Nat

/-- Nothing more can be sent now: the bytes sent so far, or `err` if there are none
(the blocking path's wait registration is taken to succeed). -/
def partialOr (sent : Nat) (err : Errno) : Except Errno Nat := if sent > 0 then .ok sent else .error err

/-- The MSS-sized chunk of the `left` bytes; an MSS of zero does not bound it. -/
def mssChunk (cb : TcpCB) (left : Nat) : Nat := if cb.sndMss > 0 then min left cb.sndMss.toNat else left

/-- The loop of `tcp_send` after `sent` bytes; `oks` says whether each
`tcp_send_segment` finds its packet buffers.  Each pass sends at least one byte, so
`fuel = len + 1` suffices. -/
def tcpSendLoop (len : Nat) : Nat → TcpCB → Nat → List Bool → List Segment → SendOutcome
  | 0, cb, sent, _, segs => ⟨cb, segs, .ok sent⟩
  | fuel + 1, cb, sent, oks, segs =>
    if sent < len then
      if sent ≥ tcpSendBurstBytes then ⟨cb, segs, .ok sent⟩
      else if cb.state ≠ .established ∧ cb.state ≠ .closeWait then
        ⟨cb, segs, partialOr sent (if cb.state = .synSent then .einprogress else .enotconn)⟩
      else if mssChunk cb (len - sent) = 0 then ⟨cb, segs, partialOr sent .eagain⟩
      else if tcpSendAvailableBytes cb = 0 then ⟨cb, segs, partialOr sent .eagain⟩
      else
        let chunk := min (min (mssChunk cb (len - sent)) (tcpSendBurstBytes - sent)) (tcpSendAvailableBytes cb).toNat
        if oks.headD true then
          tcpSendLoop len fuel (tcpSendSegment cb (tcpAck ||| tcpPsh) chunk) (sent + chunk) oks.tail
            (segs ++ [⟨tcpAck ||| tcpPsh, chunk⟩])
        else ⟨cb, segs, partialOr sent .eagain⟩
    else ⟨cb, segs, .ok sent⟩

/-- `tcp_send`. -/
def tcpSend (cb : TcpCB) (len : Nat) (oks : List Bool) : SendOutcome :=
  if cb.state = .synSent then ⟨cb, [], .error .einprogress⟩
  else if cb.state ≠ .established ∧ cb.state ≠ .closeWait then ⟨cb, [], .error .enotconn⟩
  else tcpSendLoop len (len + 1) cb 0 oks []

/-- A segment sends only the window's sequence numbers: the MSS is untouched. -/
@[simp] theorem tcpSendSegment_sndMss (cb : TcpCB) (flags : UInt8) (len : Nat) :
    (tcpSendSegment cb flags len).sndMss = cb.sndMss := by
  unfold tcpSendSegment
  split_ifs <;> rfl

theorem mssChunk_le {cb : TcpCB} (left : Nat) (h : 0 < cb.sndMss.toNat) : mssChunk cb left ≤ cb.sndMss.toNat := by
  have hpos : cb.sndMss > 0 := UInt16.lt_iff_toNat_lt.mpr (by simpa using h)
  rw [mssChunk, if_pos hpos]
  exact Nat.min_le_right _ _

/-- What `tcp_send` guarantees of each segment it sends under the MSS `mss`: the
flags ACK and PSH, a payload no larger than the MSS when it is not zero, and no
larger than the burst budget. -/
def SegmentBounded (mss : UInt16) (s : Segment) : Prop :=
  s.flags = tcpAck ||| tcpPsh ∧ (0 < mss.toNat → s.len ≤ mss.toNat) ∧ s.len ≤ tcpSendBurstBytes

/-- **Every chunk of `tcp_send`'s loop is bounded** by the MSS and the burst budget. -/
theorem tcpSendLoop_segmentBounded (len : Nat) {fuel : Nat} {cb : TcpCB} {sent : Nat} {oks : List Bool}
    {segs : List Segment} (hsegs : ∀ s ∈ segs, SegmentBounded cb.sndMss s) :
    ∀ s ∈ (tcpSendLoop len fuel cb sent oks segs).segments, SegmentBounded cb.sndMss s := by
  -- the MSS is fixed along the loop, so the bound carried for `segs` is the final one
  induction fuel generalizing cb sent oks segs with
  | zero => exact hsegs
  | succ fuel ih =>
    unfold tcpSendLoop
    dsimp only
    split_ifs with hlt hburst hstate hzero havail hok
    all_goals try exact hsegs
    have hnext := @ih (tcpSendSegment cb (tcpAck ||| tcpPsh)
      (min (min (mssChunk cb (len - sent)) (tcpSendBurstBytes - sent)) (tcpSendAvailableBytes cb).toNat))
      (sent + min (min (mssChunk cb (len - sent)) (tcpSendBurstBytes - sent)) (tcpSendAvailableBytes cb).toNat)
      oks.tail (segs ++ [⟨tcpAck ||| tcpPsh,
        min (min (mssChunk cb (len - sent)) (tcpSendBurstBytes - sent)) (tcpSendAvailableBytes cb).toNat⟩])
    rw [tcpSendSegment_sndMss] at hnext
    refine hnext fun s hs => ?_
    rcases List.mem_append.mp hs with hs | hs
    · exact hsegs s hs
    · rw [List.mem_singleton] at hs
      subst hs
      refine ⟨rfl, fun hmss => ?_, by dsimp only; omega⟩
      have := mssChunk_le (len - sent) hmss
      dsimp only
      omega

/-- The chunks of a whole `tcp_send` call are bounded by the MSS and the burst budget. -/
theorem tcpSend_segmentBounded (cb : TcpCB) (len : Nat) (oks : List Bool) :
    ∀ s ∈ (tcpSend cb len oks).segments, SegmentBounded cb.sndMss s := by
  unfold tcpSend
  split_ifs
  · simp
  · simp
  · exact tcpSendLoop_segmentBounded len (by simp)

/-- A segment with the flags `tcp_send` uses carries no options. -/
theorem Segment.optsLen_ackPsh (len : Nat) : (Segment.mk (tcpAck ||| tcpPsh) len).optsLen = 0 := by
  unfold Segment.optsLen
  rw [if_neg (show ¬((tcpAck ||| tcpPsh) &&& tcpSyn ≠ 0) by decide)]

/-- **An MSS that fits the packet buffer keeps every segment of `tcp_send` inside it.**
The bound is `PKT_BUF_SIZE - PKT_HEADROOM - sizeof(TcpHeader) = 10092`. -/
theorem tcpSend_fits_of_mss_le {cb : TcpCB} (len : Nat) (oks : List Bool) (hpos : 0 < cb.sndMss.toNat)
    (hmss : cb.sndMss.toNat ≤ pktBufSize - pktHeadroom - tcpHeaderSize) :
    ∀ s ∈ (tcpSend cb len oks).segments, s.Fits := by
  intro s hs
  obtain ⟨hflags, hle, -⟩ := tcpSend_segmentBounded cb len oks s hs
  have hopts : s.optsLen = 0 := by
    rcases s with ⟨flags, slen⟩
    dsimp only at hflags
    subst hflags
    exact Segment.optsLen_ackPsh slen
  have hlen := hle hpos
  simp only [Segment.Fits, Segment.total, hopts]
  simp only [pktBufSize, pktHeadroom, tcpHeaderSize] at hmss ⊢
  omega

/-! ## A connection under the peer's segments -/

/-- `static_cast<uint32_t>(seg_wnd) << cb->snd_wscale`.  Lean shifts modulo `32`;
in C++ a shift by `32` or more is undefined, which is why `World` records every
shift amount. -/
def scaledWindow (segWnd : UInt16) (shift : UInt8) : UInt32 := segWnd.toUInt32 <<< shift.toUInt32

/-- What happens to an actively opened connection. -/
inductive Event where
  /-- A SYN-ACK in `SYN_SENT`: its acknowledgement, window, and header bytes. -/
  | synAck (segAck : UInt32) (segWnd : UInt16) (hdr : List UInt8)
  /-- An ACK without payload in `ESTABLISHED` or `CLOSE_WAIT` (`process_stream_ack`). -/
  | ack (segAck : UInt32) (segWnd : UInt16)
  /-- A `tcp_send` of `len` bytes. -/
  | send (len : Nat) (oks : List Bool)

/-- The connection, the capacity of its receive buffer, every segment `tcp_send`
has handed to `tcp_send_segment`, and every shift applied to a received window. -/
structure World where
  cb : TcpCB
  rcvbufCapacity : Nat
  segments : List Segment
  shifts : List Nat

/-- `process_stream_ack`: a valid ACK that advances, or changes the window, sets the
window to the peer's scaled by its shift; an advancing one moves `snd_una`. -/
def World.processStreamAck (w : World) (segAck : UInt32) (segWnd : UInt16) : World :=
  let valid := ¬Precedes w.cb.sndNxt segAck
  let advances := Precedes w.cb.sndUna segAck
  let w₁ := if valid ∧ (advances ∨ segWnd.toUInt32 ≠ w.cb.sndWnd) then
      { w with cb := { w.cb with sndWnd := scaledWindow segWnd w.cb.sndWscale },
               shifts := w.shifts ++ [w.cb.sndWscale.toNat] }
    else w
  if advances ∧ valid then { w₁ with cb := { w₁.cb with sndUna := segAck } } else w₁

/-- One event.  `tcp_rx` drops a segment whose header length is below `20` or
past its end; `none` is a read outside the segment. -/
def World.step (w : World) : Event → Option World
  | .synAck segAck segWnd hdr =>
    if tcpHeaderLen hdr < tcpHeaderSize ∨ tcpHeaderLen hdr > hdr.length then some w
    else if w.cb.state = .synSent ∧ segAck = w.cb.sndNxt then
      -- the SYN window is not scaled
      (parseSynOptions { w.cb with sndUna := segAck, sndWnd := segWnd.toUInt32 } hdr
          (some (tcpWscaleForBuf w.rcvbufCapacity))).map
        fun cb => { w with cb := { cb with state := .established } }
    else some w
  | .ack segAck segWnd =>
    if w.cb.state = .established ∨ w.cb.state = .closeWait then some (w.processStreamAck segAck segWnd)
    else some w
  | .send len oks =>
    let r := tcpSend w.cb len oks
    some { w with cb := r.cb, segments := w.segments ++ r.segments }

def World.run : World → List Event → Option World
  | w, [] => some w
  | w, e :: es => (w.step e).bind (·.run es)

/-- The connection `tcp_connect` leaves after sending its SYN with initial sequence
number `iss`. -/
def World.init (iss : UInt32) (rcvbufCapacity : Nat) : World :=
  ⟨{ state := .synSent, sndUna := iss, sndNxt := iss + 1, rcvWscale := tcpWscaleForBuf rcvbufCapacity },
    rcvbufCapacity, [], []⟩

/-- A SYN-ACK header of 32 bytes whose options announce MSS `65535` and shift `255`. -/
def peerSynAckHeader : List UInt8 :=
  List.replicate 12 0 ++ [0x80] ++ List.replicate 7 0 ++ [2, 4, 0xFF, 0xFF, 3, 3, 255, 1, 0, 0, 0, 0]

/-- **Peer options overflow the send path.**  The peer's SYN-ACK announces MSS
`65535` and shift `255`; a `tcp_send` of `20000` bytes then hands one segment of
`20000` bytes to `tcp_send_segment`, past the `10240`-byte packet buffer, and the
next ACK shifts the peer's window by `255` bits. -/
theorem tcp_peer_options_overflow_send_path :
    ∃ w, (World.init 0 65536).run [.synAck 1 65535 peerSynAckHeader, .send 20000 [true], .ack 20001 1] = some w ∧
      (∃ s ∈ w.segments, ¬s.Fits) ∧ (∃ k ∈ w.shifts, 14 < k) :=
  ⟨_, rfl, by decide, by decide⟩

end Wos.Tcp
