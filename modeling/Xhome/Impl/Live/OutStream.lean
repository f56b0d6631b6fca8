import Xhome.Impl.Live.Protocol

/-!
# The stream of a player (`live/crtmpserver-717`, `baseoutnetrtmpstream.cpp`)

`FeedData` is handed the audio and video frames of a publisher in pieces. It
waits for the first frame that can be shown, leaves frames out while too much is
waiting to be sent (`AllowExecution2`), and `ChunkAndSend` cuts what it lets
through into the chunks of the player's connection; the bytes of a frame that do
not fill a chunk wait in a bucket.

A `double` of the times is a whole number of milliseconds. What `CalcFrameLevel`
makes of a piece and the bytes that wait in the output buffer come with the
piece. Counters, log lines and what is sent when a stream is attached, paused or
sought are left out. A piece with fewer than two bytes is read as if zeros
followed.
-/

namespace XH.Impl.Live

variable {σ : Type}

namespace Connection

/-- `channel.lastOutProcBytes += n` -/
def addProcBytes (p : Connection σ) (i n : Nat) : Connection σ :=
  p.setChannel i { p.channels i with lastOutProcBytes := u32 ((p.channels i).lastOutProcBytes + n) }

/-- `channel.lastOutProcBytes = n` -/
def setProcBytes (p : Connection σ) (i n : Nat) : Connection σ :=
  p.setChannel i { p.channels i with lastOutProcBytes := n }

/-- `SendRawData(pData, length)` -/
def sendRawBytes (p : Connection σ) (data : List Byte) : Connection σ :=
  { p with outputBuffer := p.outputBuffer ++ data }

/-- `SendRawData(header, channel, pData, n)`, and the bytes are counted. -/
def sendCounted (p : Connection σ) (header : Header) (i : Nat) (data : List Byte) : Option (Connection σ × Header) :=
  let (ok, header, p) := p.sendRawData header i data
  if ok then some (p.addProcBytes i data.length, header) else none

/-- The loop of `ChunkAndSend`: the connection, the header, what is left of the
data and `leftBytesToSend`; `fuel` bounds its rounds. -/
def sendChunks (chunkSize : Nat) : (fuel : Nat) → Connection σ → Header → (i : Nat) → (data : List Byte) →
    (leftBytesToSend : Nat) → Option (Connection σ × Header × List Byte × Nat)
  | 0, p, header, _, data, leftBytesToSend => some (p, header, data, leftBytesToSend)
  | fuel + 1, p, header, i, data, leftBytesToSend =>
    if chunkSize ≤ data.length then
      (p.sendCounted header i (data.take chunkSize)).bind fun (p, header) =>
        sendChunks chunkSize fuel p header i (data.drop chunkSize) (sub32 leftBytesToSend chunkSize)
    else some (p, header, data, leftBytesToSend)

/-- The bucket, if there is something in it, and as much of the data as its chunk has room for. -/
def sendBucket (chunkSize : Nat) (p : Connection σ) (header : Header) (i : Nat) (bucket data : List Byte)
    (leftBytesToSend : Nat) : Option (Connection σ × Header × List Byte × Nat) :=
  if bucket ≠ [] then
    (p.sendCounted header i bucket).map fun (p, header) =>
      let leftOvers := sub32 chunkSize bucket.length
      let leftOvers := if leftOvers ≤ data.length then leftOvers else data.length
      ((p.sendRawBytes (data.take leftOvers)).addProcBytes i leftOvers, header, data.drop leftOvers,
        sub32 (sub32 leftBytesToSend bucket.length) leftOvers)
  else some (p, header, data, leftBytesToSend)

/-- The last chunk of a frame, which may be a short one. -/
def sendLast (p : Connection σ) (header : Header) (i : Nat) (data : List Byte) (leftBytesToSend : Nat) :
    Option (Connection σ × Header × List Byte × Nat) :=
  if 0 < data.length ∧ data.length = leftBytesToSend then
    (p.sendCounted header i data).map fun (p, header) => (p, header, [], 0)
  else some (p, header, data, leftBytesToSend)

/-- `ChunkAndSend`: the connection, the header and the bucket. Behind the bucket
`totalAvailableBytes` is what is left of the data. -/
def chunkAndSend (chunkSize feederChunkSize : Nat) (p : Connection σ) (header : Header) (i : Nat)
    (bucket data : List Byte) : Option (Connection σ × Header × List Byte) :=
  if header.hf.ml = 0 then
    let (ok, header, p) := p.sendRawData header i []
    if ok then some (p, header, bucket) else none
  else if feederChunkSize = chunkSize ∧ bucket = [] then
    (p.sendCounted header i data).map fun (p, header) =>
      (p.setProcBytes i ((p.channels i).lastOutProcBytes % header.hf.ml.toNat), header, bucket)
  else
    let leftBytesToSend := sub32 header.hf.ml.toNat (p.channels i).lastOutProcBytes
    if bucket.length + data.length < chunkSize ∧ bucket.length + data.length ≠ leftBytesToSend then
      some (p, header, bucket ++ data)
    else do
      let (p, header, data, leftBytesToSend) ← sendBucket chunkSize p header i bucket data leftBytesToSend
      let (p, header, data, leftBytesToSend) ← sendChunks chunkSize data.length p header i data leftBytesToSend
      let (p, header, data, leftBytesToSend) ← sendLast p header i data leftBytesToSend
      some (if leftBytesToSend = 0 then p.setProcBytes i 0 else p, header, data)

end Connection

/-! ## The frames that are let through -/

/-- What the stream keeps for its audio or its video. -/
structure Track where
  channel : Nat
  isFirst : Bool
  header : Header
  bucket : List Byte
  currentFrameDropped : Bool

/-- `sameTimeBase`: `_pDeltaVideoTime` is `&_deltaAudioTime`. -/
structure OutStream where
  chunkSize : Nat
  feederChunkSize : Nat
  canDropFrames : Bool
  paused : Bool
  audio : Track
  video : Track
  lastIDropped : Bool
  lastPDropped : Bool
  lastFrameLevel : Nat
  deltaAudioTime : Int
  deltaVideoTime : Int
  sameTimeBase : Bool
  seekTime : Int

/-- A piece of a frame that is fed. `frameLevel` is what `CalcFrameLevel` makes
of the first piece of a video frame, `blockedBufferSize` what waits to be sent. -/
structure Feed where
  data : List Byte
  processedLength : Nat
  totalLength : Nat
  absoluteTimestamp : Int
  isAudio : Bool
  frameLevel : Nat
  blockedBufferSize : Nat

/-- The type of an AAC sequence header: `pData[0] >> 4 == 10 && pData[1] == 0` -/
def Feed.isAudioSetup (f : Feed) : Bool := f.data.getD 0 0 >>> 4 == 10 && f.data.getD 1 0 == 0

/-- The type of an AVC sequence header: `pData[0] == 0x17 && pData[1] == 0` -/
def Feed.isVideoSetup (f : Feed) : Bool := f.data.getD 0 0 == 0x17 && f.data.getD 1 0 == 0

/-- `(uint32_t) x` of a `double` that has no fraction; a negative one has no defined value. -/
def toUInt32 (x : Int) : BitVec 32 := .ofInt 32 x

/-- The size of the output buffer above which a frame of this level is dropped;
`faded` if the frame before it has been. -/
def dropThreshold (frameLevel : Nat) (faded : Bool) : Option Nat :=
  match frameLevel, faded with
  | 0, false => some 262144
  | 0, true => some 209715
  | 1, false => some 131072
  | 1, true => some 104857
  | 2, false => some 104857
  | 2, true => some 83886
  | 3, false => some 39321
  | 3, true => some 31457
  | _, _ => none

namespace OutStream

def track (s : OutStream) (isAudio : Bool) : Track := if isAudio then s.audio else s.video

def setTrack (s : OutStream) (isAudio : Bool) (t : Track) : OutStream :=
  if isAudio then { s with audio := t } else { s with video := t }

/-- `*_pDeltaAudioTime` or `*_pDeltaVideoTime` -/
def deltaTime (s : OutStream) (isAudio : Bool) : Int :=
  if isAudio || s.sameTimeBase then s.deltaAudioTime else s.deltaVideoTime

def setDeltaTime (s : OutStream) (isAudio : Bool) (delta : Int) : OutStream :=
  if isAudio || s.sameTimeBase then { s with deltaAudioTime := delta } else { s with deltaVideoTime := delta }

/-- `AllowExecution2` -/
def allowExecution2 (s : OutStream) (totalProcessed blockedBufferSize : Nat) (isAudio : Bool) (frameLevel : Nat) :
    OutStream × Bool :=
  let t := s.track isAudio
  if !s.canDropFrames then (s, true)
  else if t.currentFrameDropped && totalProcessed ≠ 0 then (s, false)
  else if totalProcessed ≠ 0 then (s, true)
  else
    let dropped (s : OutStream) : OutStream × Bool := (s.setTrack isAudio { t with currentFrameDropped := true }, false)
    if (s.lastIDropped || s.lastPDropped) && 1 < frameLevel then dropped s
    else if (dropThreshold frameLevel t.currentFrameDropped).any (· < blockedBufferSize) then
      if frameLevel = 1 then dropped { s with lastIDropped := true }
      else if frameLevel = 2 then dropped { s with lastPDropped := true }
      else dropped s
    else
      let s := s.setTrack isAudio { t with currentFrameDropped := false }
      (if isAudio then s else { s with lastIDropped := false, lastPDropped := false }, true)

/-- The header of a frame that begins with an absolute time. -/
def absoluteHeader (s : OutStream) (f : Feed) : Header :=
  let h := (s.track f.isAudio).header
  { h with
    isAbsolute := true
    hf := { h.hf with ts := toUInt32 (f.absoluteTimestamp - s.deltaTime f.isAudio + s.seekTime) } }

/-- The header of a frame that begins with the time since the one before it, or goes on. -/
def relativeHeader (s : OutStream) (f : Feed) (lastOutAbsTs : Int) : Header :=
  let h := (s.track f.isAudio).header
  { h with
    isAbsolute := false
    hf :=
      if f.processedLength = 0 then
        { h.hf with
          ts := toUInt32 (f.absoluteTimestamp - s.deltaTime f.isAudio + s.seekTime - lastOutAbsTs) }
      else h.hf }

/-- The audio part of `FeedData` before `ChunkAndSend`: whether it goes on to it. -/
def feedAudio (s : OutStream) (f : Feed) (lastOutAbsTs : Int) : OutStream × Bool :=
  if s.audio.isFirst then
    let s := { s with audio := { s.audio with currentFrameDropped := false } }
    if f.data.length = 0 || f.processedLength ≠ 0 then (s, false)
    else
      let s := if s.deltaTime true < 0 then s.setDeltaTime true f.absoluteTimestamp else s
      if f.absoluteTimestamp < s.deltaTime true && !f.isAudioSetup then (s, false)
      else
        let s := if f.absoluteTimestamp < s.deltaTime true then s.setDeltaTime true f.absoluteTimestamp else s
        ({ s with audio := { s.audio with header := s.absoluteHeader f, isFirst := f.isAudioSetup } }, true)
  else
    let (s, allowed) := s.allowExecution2 f.processedLength f.blockedBufferSize true 0
    if allowed then ({ s with audio := { s.audio with header := s.relativeHeader f lastOutAbsTs } }, true)
    else (s, false)

/-- The video part of `FeedData` before `ChunkAndSend`: whether it goes on to it. -/
def feedVideo (s : OutStream) (f : Feed) (lastOutAbsTs : Int) : OutStream × Bool :=
  let s := if f.processedLength = 0 then { s with lastFrameLevel := f.frameLevel } else s
  if s.video.isFirst then
    let s := { s with
      video := { s.video with currentFrameDropped := false }, lastIDropped := false, lastPDropped := false }
    if f.data.length = 0 || f.processedLength ≠ 0 || f.data.getD 0 0 >>> 4 ≠ 1 then (s, false)
    else
      let s := if s.deltaTime false < 0 then s.setDeltaTime false f.absoluteTimestamp else s
      if f.absoluteTimestamp < s.deltaTime false then (s, false)
      else ({ s with video := { s.video with header := s.absoluteHeader f, isFirst := f.isVideoSetup } }, true)
  else
    let (s, allowed) := s.allowExecution2 f.processedLength f.blockedBufferSize false s.lastFrameLevel
    if allowed then ({ s with video := { s.video with header := s.relativeHeader f lastOutAbsTs } }, true)
    else (s, false)

/-- `H_ML(header) = totalLength` -/
def withLength (t : Track) (totalLength : Nat) : Track :=
  { t with header := { t.header with hf := { t.header.hf with ml := .ofNat 24 totalLength } } }

/-- What `FeedData` does before `ChunkAndSend`. -/
def prepare (s : OutStream) (f : Feed) (lastOutAbsTs : Int) : OutStream × Bool :=
  if f.isAudio then s.feedAudio f lastOutAbsTs else s.feedVideo f lastOutAbsTs

/-- `FeedData`: the stream and its connection, or nothing if it fails. -/
def feedData (s : OutStream) (p : Connection σ) (f : Feed) : Option (OutStream × Connection σ) :=
  if s.paused then some (s, p)
  else
    let (s, send) := s.prepare f (p.channels (s.track f.isAudio).channel).lastOutAbsTs
    if send then
      let t := withLength (s.track f.isAudio) f.totalLength
      (p.chunkAndSend s.chunkSize s.feederChunkSize t.header t.channel t.bucket f.data).map fun (p, header, bucket) =>
        (s.setTrack f.isAudio { t with header := header, bucket := bucket }, p)
    else some (s, p)

/-- What `TrySetOutboundChunkSize` does to a stream of the connection (`SetChunkSize`). -/
def trySetChunkSize (s : OutStream) (p : Connection σ) (chunkSize : Nat) : OutStream :=
  if chunkSize ≤ p.outboundChunkSize then s else { s with chunkSize := chunkSize }

end OutStream

end XH.Impl.Live
