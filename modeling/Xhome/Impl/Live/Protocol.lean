import Mathlib.Logic.Function.Basic
import Xhome.Framework.Turns
import Xhome.Impl.Live.Header

/-!
# An RTMP connection (`live/crtmpserver-717`, `basertmpprotocol.cpp`, `rtmpprotocolserializer.cpp`)

`ProcessBytes` takes the received bytes apart into chunks, hands the audio and
video data of each chunk to the inbound stream and collects the chunks of all
other messages; `SendMessage` and `SendRawData` cut what is sent into chunks.
`App` stands for the rest of the application: the inbound streams and the
messages that are neither a chunk size nor an abort. A message that is sent
comes with its body, which `_internalBuffer` holds. The channel behind the last
one stands for what `ProcessBytes` writes to before it looks at the channel's
number. Acknowledgements, the handshake and log lines are left out.
-/

namespace XH.Impl.Live

def maxChannelsCount : Nat := 64 + 255
def maxStreamsCount : Nat := 256

/-! ## Message types -/

def mtChunkSize : BitVec 8 := 1
def mtAbortMessage : BitVec 8 := 2
def mtAudioData : BitVec 8 := 8
def mtVideoData : BitVec 8 := 9

/-- What an application with the state `σ` does with what is received; `none` is a failure. -/
structure App (σ : Type) where
  /-- `_streams[si]` is there and its type is `ST_IN_NET_RTMP`. -/
  inNet : σ → (si : Nat) → Bool
  feedData : σ → (si : Nat) → (data : List Byte) → (processedLength totalLength : Nat) →
    (absoluteTimestamp : Int) → (isAudio : Bool) → Option σ
  /-- `InboundMessageAvailable` for the messages of all other types: also what it leaves in `inputData`. -/
  inboundMessage : σ → Header → (inputData : List Byte) → Option (σ × List Byte)

structure Connection (σ : Type) where
  app : σ
  channels : Nat → Channel
  selectedChannel : Option Nat
  inboundChunkSize : Nat
  outboundChunkSize : Nat
  outputBuffer : List Byte

variable {σ : Type}

namespace Connection

/-- The connection as `BaseRTMPProtocol` constructs it. -/
def initial (app : σ) : Connection σ where
  app := app
  channels i := Channel.reset ⟨i, .header, [], .zero, 0, 0, 0, .zero, 0, 0, 0⟩
  selectedChannel := none
  inboundChunkSize := 128
  outboundChunkSize := 128
  outputBuffer := []

def setChannel (p : Connection σ) (i : Nat) (c : Channel) : Connection σ :=
  { p with channels := Function.update p.channels i c }

/-! ## Receiving -/

/-- The start of a chunk: its channel and its header type. -/
def selectChannel (p : Connection σ) (buffer : List Byte) : Turn (Connection σ) Byte :=
  let select (i : Nat) (b : Byte) (buffer : List Byte) : Turn (Connection σ) Byte :=
    .next { p.setChannel i { p.channels i with lastInHeaderType := b >>> 6 } with selectedChannel := some i } buffer
  match buffer with
  | [] => .wait p []
  | b :: buffer =>
    if b &&& 0x3f = 0 then
      match buffer with
      | [] => .wait p [b]
      | b' :: buffer => select (64 + b'.toNat) b buffer
    else if b &&& 0x3f = 1 then .fail p
    else select (b &&& 0x3f).toNat b buffer

/-- The channel once the header of a chunk is complete. -/
def headerRead (c : Channel) (h : Header) : Channel :=
  let lastInAbsTs : Int :=
    if c.lastInHeaderType = htFull then h.hf.ts.toNat
    else if c.lastInHeaderType = htSameStream ∨ c.lastInHeaderType = htSameLengthAndStream then
      c.lastInAbsTs + h.hf.ts.toNat
    else if c.lastInHeaderType = htContinuation ∧ c.lastInProcBytes = 0 then c.lastInAbsTs + h.hf.ts.toNat
    else c.lastInAbsTs
  { c with lastInHeader := h, state := .payload, lastInAbsTs := lastInAbsTs }

/-- The header of a chunk of channel `i`. -/
def readHeader (p : Connection σ) (i : Nat) (buffer : List Byte) : Turn (Connection σ) Byte :=
  let c := p.channels i
  match c.state with
  | .payload => .next p buffer
  | .header =>
    let (ok, h, buffer) := c.lastInHeader.read i c.lastInHeaderType buffer buffer.length
    if !ok then .fail p
    else if !h.readCompleted then .wait (p.setChannel i { c with lastInHeader := h }) buffer
    else .next (p.setChannel i (headerRead c h)) buffer

/-- The bytes that the chunk has. -/
def chunkLength (p : Connection σ) (c : Channel) : Nat :=
  let tempSize := sub32 c.lastInHeader.hf.ml.toNat c.lastInProcBytes
  if p.inboundChunkSize ≤ tempSize then p.inboundChunkSize else tempSize

/-- `lastInProcBytes` behind a chunk with `n` bytes. -/
def advance (c : Channel) (n : Nat) : Channel :=
  let lastInProcBytes := u32 (c.lastInProcBytes + n)
  { c with lastInProcBytes := if c.lastInHeader.hf.ml.toNat = lastInProcBytes then 0 else lastInProcBytes }

/-- `ProcessChunkSize`, with what `SetInboundChunkSize` does to the connection.
It also hands the size on to the inbound streams, and these to the connections
of their players (`TrySetOutboundChunkSize`); that is left out. -/
def processChunkSize (p : Connection σ) (size : Nat) : Option (Connection σ) :=
  if 4 * 1024 * 1024 < size ∨ size = 0 then none else some { p with inboundChunkSize := size }

/-- `ProcessAbortMessage`, with `ResetChannel` -/
def processAbortMessage (p : Connection σ) (channelId : Nat) : Option (Connection σ) :=
  if maxChannelsCount ≤ channelId then none else some (p.setChannel channelId (p.channels channelId).reset)

/-- The 32-bit number at the start of a message, and the connection once it is
processed; the number is taken off `inputData` before that. -/
def processUInt32 (p : Connection σ) (i : Nat) (process : Connection σ → Nat → Option (Connection σ)) :
    Option (Connection σ) :=
  let c := p.channels i
  if c.inputData.length < 4 then none
  else
    let value := (ntohl (.ofNat 32 (valueOf (c.inputData.take 4)))).toNat
    process (p.setChannel i { c with inputData := c.inputData.drop 4 }) value

/-- `InboundMessageAvailable` for the message in channel `i`. -/
def inboundMessageAvailable (a : App σ) (p : Connection σ) (i : Nat) : Option (Connection σ) :=
  let c := p.channels i
  if c.lastInHeader.hf.mt = mtChunkSize then p.processUInt32 i processChunkSize
  else if c.lastInHeader.hf.mt = mtAbortMessage then p.processUInt32 i processAbortMessage
  else (a.inboundMessage p.app c.lastInHeader c.inputData).map fun (app, inputData) =>
    { p.setChannel i { c with inputData := inputData } with app := app }

/-- An audio or video chunk of channel `i`. -/
def takeData (a : App σ) (p : Connection σ) (i : Nat) (isAudio : Bool) (data : List Byte) : Option (Connection σ) :=
  let c := p.channels i
  let si := c.lastInHeader.hf.si.toNat
  if maxStreamsCount ≤ si then none
  else
    let fed :=
      if a.inNet p.app si then
        a.feedData p.app si data c.lastInProcBytes c.lastInHeader.hf.ml.toNat c.lastInAbsTs isAudio
      else some p.app
    fed.map fun app => { p.setChannel i (advance c data.length) with app := app }

/-- A chunk of any other message of channel `i`. -/
def takeMessage (a : App σ) (p : Connection σ) (i : Nat) (data : List Byte) : Option (Connection σ) :=
  let c := p.channels i
  let c := { c with inputData := c.inputData ++ data, lastInProcBytes := u32 (c.lastInProcBytes + data.length) }
  if c.lastInHeader.hf.ml.toNat = c.lastInProcBytes then
    ((p.setChannel i { c with lastInProcBytes := 0 }).inboundMessageAvailable a i).filter
      fun p => (p.channels i).inputData.isEmpty
  else some (p.setChannel i c)

/-- The data of a chunk of channel `i`. -/
def takePayload (a : App σ) (p : Connection σ) (i : Nat) (buffer : List Byte) : Turn (Connection σ) Byte :=
  let c := p.channels i
  let tempSize := p.chunkLength c
  if buffer.length < tempSize then .wait p buffer
  else
    let p := { p.setChannel i { c with state := .header } with selectedChannel := none }
    let data := buffer.take tempSize
    let taken :=
      if c.lastInHeader.hf.mt = mtVideoData then p.takeData a i false data
      else if c.lastInHeader.hf.mt = mtAudioData then p.takeData a i true data
      else p.takeMessage a i data
    match taken with
    | none => .fail p
    | some p => .next p (buffer.drop tempSize)

/-- What follows in a round of the loop if the turn before it goes on. -/
def followedBy (t : Turn (Connection σ) Byte) (f : Connection σ → List Byte → Turn (Connection σ) Byte) :
    Turn (Connection σ) Byte :=
  match t with
  | .next p buffer => f p buffer
  | t => t

/-- One round of the loop in `ProcessBytes`. -/
def processTurn (a : App σ) (p : Connection σ) (buffer : List Byte) : Turn (Connection σ) Byte :=
  let selected := if p.selectedChannel.isNone then p.selectChannel buffer else .next p buffer
  followedBy selected fun p buffer =>
    let i := p.selectedChannel.getD 0
    if maxChannelsCount ≤ i then .fail p
    else followedBy (p.readHeader i buffer) fun p buffer => p.takePayload a i buffer

/-- A bound for the rounds that are left. -/
def rounds (p : Connection σ) (buffer : List Byte) : Nat :=
  buffer.length + if p.selectedChannel.isSome then 1 else 0

/-- `ProcessBytes`: the connection and the bytes left, or the connection that has failed. -/
def processBytes (a : App σ) (p : Connection σ) (buffer : List Byte) :
    Except (Connection σ) (Connection σ × List Byte) :=
  loopTurns (processTurn a) (rounds p buffer + 1) p buffer

/-! ## Sending -/

/-- A message that is sent: what its header says and its body. -/
structure Message where
  ci : Nat
  ts : BitVec 32
  mt : BitVec 8
  si : BitVec 32
  isAbsolute : Bool
  body : List Byte

/-- `Header::GetFromVariant`, with the message length that `Serialize` puts in;
`skip4bytes` is not set, and `Write` does not look at it. -/
def Message.header (m : Message) : Header where
  ci := m.ci
  ht := htFull
  hf := { ts := m.ts, ml := .ofNat 24 m.body.length, mt := m.mt, si := m.si }
  readCompleted := true
  isAbsolute := m.isAbsolute
  skip4bytes := false

/-- The loop of `Serialize` that cuts what is in `_internalBuffer` into chunks;
`fuel` bounds its rounds. -/
def chunkLoop (chunkSize : Nat) : (fuel : Nat) → Header → Channel → (internal buffer : List Byte) → (ok : Bool) →
    Bool × Channel × List Byte
  | 0, _, channel, _, buffer, ok => (ok, channel, buffer)
  | fuel + 1, header, channel, internal, buffer, ok =>
    if internal = [] then (ok, channel, buffer)
    else
      let (wrote, header, channel, buffer) := header.writeTo channel buffer
      let n := if chunkSize ≤ internal.length then chunkSize else internal.length
      let channel := { channel with lastOutProcBytes := u32 (channel.lastOutProcBytes + n) }
      chunkLoop chunkSize fuel header channel (internal.drop n) (buffer ++ internal.take n) (ok && wrote)

/-- `SendMessage`: what it returns and the connection. -/
def sendMessage (p : Connection σ) (m : Message) : Bool × Connection σ :=
  let (ok, channel, buffer) :=
    chunkLoop p.outboundChunkSize m.body.length m.header (p.channels m.ci) m.body p.outputBuffer true
  (ok, { p.setChannel m.ci { channel with lastOutProcBytes := 0 } with outputBuffer := buffer })

/-- `SendRawData(Header &header, Channel &channel, ..)`: what it returns, the header and the connection. -/
def sendRawData (p : Connection σ) (header : Header) (i : Nat) (data : List Byte) : Bool × Header × Connection σ :=
  let (ok, header, channel, buffer) := header.writeTo (p.channels i) p.outputBuffer
  let p := p.setChannel i channel
  if ok then (true, header, { p with outputBuffer := buffer ++ data })
  else (false, header, { p with outputBuffer := buffer })

/-- `_amf0.WriteUInt32(buffer, value, false)` -/
def writeUInt32 (value : Nat) : List Byte := bytesOf 4 (ntohl (.ofNat 32 value)).toNat

/-- A message of `GenericMessageFactory` with a 32-bit number: `VH(result, HT_FULL, 2, 0, 0, mt, 0, true)` -/
def genericMessage (mt : BitVec 8) (value : Nat) : Message := ⟨2, 0, mt, 0, true, writeUInt32 value⟩

/-- `TrySetOutboundChunkSize`, without the outbound streams -/
def trySetOutboundChunkSize (p : Connection σ) (chunkSize : Nat) : Connection σ :=
  if chunkSize ≤ p.outboundChunkSize then p
  else ({ p with outboundChunkSize := chunkSize }.sendMessage (genericMessage mtChunkSize chunkSize)).2

/-- `SendMessage(GetAbortMessage(id))` and `Reset()` of a channel that is in the middle of a message. -/
def abortChannel (p : Connection σ) (i : Nat) : Connection σ :=
  if (p.channels i).lastOutProcBytes ≠ 0 then
    let (ok, p) := p.sendMessage (genericMessage mtAbortMessage (p.channels i).id)
    if ok then p.setChannel i (p.channels i).reset else p
  else p

end Connection

end XH.Impl.Live
