import Xhome.Framework.BigEndian

/-!
# H.264 over RTP (`live/crtmpserver-717`, `outnetrtpudph264stream.cpp`, `inboundrtpprotocol.cpp`, `innetrtpstream.cpp`)

The video of a stream that goes out in RTP packets, and of one that comes in.
`FeedDataVideoFUA` sends a NAL unit in one packet if it fits and in fragments
otherwise; `FeedVideoData` puts fragments together again and starts over when a
packet is missing.

The datagrams of the carrier are lists of bytes. A time is what `ToRTPTS` makes
of it, and what a stream is fed is handed on with the time in `rtpTs`, of which
`FeedData` makes milliseconds; it never fails unless a player is on the
publisher's own connection. Counters, reports, log lines and the roll-over
detection of `RTP_DETECT_ROLLOVER`, which is not defined, are left out.
-/

namespace XH.Impl.Live

/-! ## NAL units -/

def naluTypeFUA : Nat := 28
def naluTypeSTAPA : Nat := 24

/-- `NALU_TYPE` -/
def naluType (b : Byte) : Nat := (b &&& 0x1f).toNat

/-! ## Sending -/

/-- The video of `OutNetRTPUDPH264Stream`; `fuIndicator` and `fuHeader` are the
bytes 12 and 13 of the header in `_videoData`, which stay from packet to packet. -/
structure OutRtpStream where
  maxRTPPacketSize : Nat
  videoSsrc : Nat
  videoCounter : Nat
  fuIndicator : Byte
  fuHeader : Byte
  videoBuffer : List Byte

namespace OutRtpStream

/-- The twelve bytes of the header. -/
def rtpHeader (s : OutRtpStream) (last : Bool) (ts : Nat) : List Byte :=
  [0x80, if last then 0xe1 else 0x61] ++ beBytes 2 s.videoCounter ++ beBytes 4 ts ++ beBytes 4 s.videoSsrc

/-- A round of the loop in `FeedDataVideoFUA`: `data` is what is left of it and
`sent` is `processedLength + sentAmount`. -/
def sendChunk (s : OutRtpStream) (data : List Byte) (sent totalLength ts : Nat) : OutRtpStream × List Byte :=
  let chunkSize := min data.length s.maxRTPPacketSize
  let last := decide (sent + chunkSize = totalLength)
  let header := s.rtpHeader last ts
  let s := { s with videoCounter := (s.videoCounter + 1) % 2 ^ 16 }
  if chunkSize = totalLength then (s, header ++ data.take chunkSize)
  else if sent = 0 then
    let s := { s with
      fuIndicator := (data.getD 0 0 &&& 0xe0) ||| 28
      fuHeader := (data.getD 0 0 &&& 0x1f) ||| 0x80 }
    (s, header ++ [s.fuIndicator, s.fuHeader] ++ (data.take chunkSize).drop 1)
  else
    let s := { s with fuHeader := if last then (s.fuHeader &&& 0x1f) ||| 0x40 else s.fuHeader &&& 0x1f }
    (s, header ++ [s.fuIndicator, s.fuHeader] ++ data.take chunkSize)

/-- The rounds; each takes a byte at least. -/
def sendChunks (totalLength ts : Nat) : (fuel : Nat) → OutRtpStream → (data : List Byte) → (sent : Nat) →
    OutRtpStream × List (List Byte)
  | 0, s, _, _ => (s, [])
  | fuel + 1, s, data, sent =>
    if data = [] then (s, [])
    else
      let chunkSize := min data.length s.maxRTPPacketSize
      let (s, packet) := s.sendChunk data sent totalLength ts
      let (s, packets) := sendChunks totalLength ts fuel s (data.drop chunkSize) (sent + chunkSize)
      (s, packet :: packets)

/-- `FeedDataVideoFUA`: the packets in the order they are sent. -/
def feedDataVideoFUA (s : OutRtpStream) (data : List Byte) (processedLength totalLength ts : Nat) :
    OutRtpStream × List (List Byte) :=
  sendChunks totalLength ts data.length s data processedLength

end OutRtpStream

/-! ## Receiving -/

/-- `RTPHeader` -/
structure RtpHeader where
  flags : Nat
  timestamp : Nat
  ssrc : Nat

def RtpHeader.cc (h : RtpHeader) : Nat := h.flags / 2 ^ 24 % 2 ^ 4
def RtpHeader.m (h : RtpHeader) : Bool := h.flags / 2 ^ 23 % 2 == 1
def RtpHeader.seq (h : RtpHeader) : Nat := h.flags % 2 ^ 16

/-- The video of `InNetRTPStream`. -/
structure InRtpStream where
  videoSequence : Nat
  currentNalu : List Byte
  videoLastRTP : Nat
  videoRTPRollCount : Nat

namespace InRtpStream

/-- `ComputeRTP` -/
def computeRTP (s : InRtpStream) (currentRtp : Nat) : InRtpStream × Nat :=
  let roll := decide (currentRtp < s.videoLastRTP) && (s.videoLastRTP / 2 ^ 31 == 1 && currentRtp / 2 ^ 31 == 0)
  let rtpRollCount := if roll then (s.videoRTPRollCount + 1) % 2 ^ 32 else s.videoRTPRollCount
  ({ s with videoLastRTP := currentRtp, videoRTPRollCount := rtpRollCount }, rtpRollCount * 2 ^ 32 + currentRtp)

/-- Starts over with the next packet that ends a frame. -/
def reset (s : InRtpStream) : InRtpStream := { s with currentNalu := [], videoSequence := 0 }

/-- The units of a STAP-A packet from `index` on, and whether it was a bogus one. -/
def stapLoop (data : List Byte) : (fuel : Nat) → (index : Nat) → List (List Byte) × Bool
  | 0, _ => ([], false)
  | fuel + 1, index =>
    if index + 3 < data.length then
      let length := beValue ((data.drop index).take 2)
      let index := index + 2
      if data.length < index + length then ([], true)
      else
        let (nals, bogus) := stapLoop data fuel (index + length)
        ((data.drop index).take length :: nals, bogus)
    else ([], false)

/-- What `FeedVideoData` does with a packet that is not missed: the NAL units
that are handed on. -/
def feedNal (s : InRtpStream) (data : List Byte) : InRtpStream × List (List Byte) :=
  let type := naluType (data.getD 0 0)
  if type ≤ 23 then (s, [data])
  else if type = naluTypeFUA then
    if s.currentNalu = [] then
      if data.getD 1 0 >>> 7 = 0 then (s.reset, [])
      else
        ({ s with currentNalu := ((data.getD 0 0 &&& 0xe0) ||| (data.getD 1 0 &&& 0x1f)) :: data.drop 2 }, [])
    else
      let nalu := s.currentNalu ++ data.drop 2
      if (data.getD 1 0 >>> 6) &&& 1 = 1 then ({ s with currentNalu := [] }, [nalu])
      else ({ s with currentNalu := nalu }, [])
  else if type = naluTypeSTAPA then
    let (nals, bogus) := stapLoop data data.length 1
    (if bogus then s.reset else s, nals)
  else (s.reset, [])

/-- `FeedVideoData`: the NAL units that are handed on, with `rtpTs`. -/
def feedVideoData (s : InRtpStream) (data : List Byte) (h : RtpHeader) : InRtpStream × List (List Byte × Nat) :=
  if s.videoSequence = 0 then
    if h.m then ({ s with videoSequence := h.seq }, []) else (s, [])
  else if (s.videoSequence + 1) % 2 ^ 16 ≠ h.seq then (s.reset, [])
  else
    let s := { s with videoSequence := (s.videoSequence + 1) % 2 ^ 16 }
    let (s, rtpTs) := s.computeRTP h.timestamp
    let (s, nals) := s.feedNal data
    (s, nals.map fun nal => (nal, rtpTs))

end InRtpStream

/-- `InboundRTPProtocol` with its stream. -/
structure InboundRtp where
  lastSeq : Nat
  seqRollOver : Nat
  stream : InRtpStream

namespace InboundRtp

/-- As it is constructed. -/
def new : InboundRtp := ⟨0, 0, ⟨0, [], 0, 0⟩⟩

/-- `SignalInputData` of a datagram. -/
def signalInputData (p : InboundRtp) (buffer : List Byte) : InboundRtp × List (List Byte × Nat) :=
  if buffer.length < 12 then (p, [])
  else
    let h : RtpHeader := ⟨beValue (buffer.take 4), beValue ((buffer.drop 4).take 4), beValue ((buffer.drop 8).take 4)⟩
    if h.seq < p.lastSeq ∧ ¬ 0xffff / 4 < p.lastSeq - h.seq then (p, [])
    else
      let p := { p with
        lastSeq := h.seq
        seqRollOver := if h.seq < p.lastSeq then (p.seqRollOver + 1) % 2 ^ 16 else p.seqRollOver }
      if buffer.length < 12 + h.cc * 4 + 1 then (p, [])
      else
        let (stream, nals) := p.stream.feedVideoData (buffer.drop (12 + h.cc * 4)) h
        ({ p with stream := stream }, nals)

end InboundRtp

end XH.Impl.Live
