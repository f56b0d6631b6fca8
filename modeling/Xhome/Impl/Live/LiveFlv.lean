import Xhome.Impl.Cutter.Flv
import Xhome.Impl.Live.InStream

/-!
# An FLV publisher (`live/crtmpserver-717`, `inboundliveflvprotocol.cpp`, `innetliveflvstream.cpp`)

`SignalInputData` takes what an FLV publisher has sent apart into tags and feeds
the audio and the video to the stream, which hands them on to the players. A
publisher's times start over at 2²⁸ milliseconds; the stream counts the turns.

What the rest of the server does is a parameter (`FlvHost`): whether a name is
free for the stream, and what `AMF0Serializer` reads in a script tag. Players that
wait for a stream with this name join it when it is there. The notification that a
script tag makes the stream send to its players is left out; it is one of the
other things that a player is sent. Counters and log lines are left out.
-/

namespace XH.Impl.Live

open Impl.Cutter (byteAt flvUI24)

variable {τ ν : Type}

/-- `InNetLiveFLVStream`: the part that is as in `InNetRTMPStream`, and
`_audioTurnCount` and `_videoTurnCount`. -/
structure LiveFlvStream (τ ν : Type) where
  base : InStream τ ν
  turnCount : Bool → Nat

namespace LiveFlvStream

/-- The stream as it is constructed. -/
def new : LiveFlvStream τ ν := ⟨⟨fun _ => 0, fun _ => [], []⟩, fun _ => 0⟩

/-- The time that a tag gets when the last one had the time `last`, and how many turns there have been. -/
def turnTime (absoluteTimestamp last : Int) (turnCount : Nat) : Int × Nat :=
  if absoluteTimestamp < last then
    let newTimestamp := absoluteTimestamp + turnCount * 0x10000000
    if newTimestamp < last then
      let newTimestamp := newTimestamp + 0x10000000
      if newTimestamp - last < 1000 then (newTimestamp, turnCount + 1) else (last, turnCount)
    else (newTimestamp, turnCount)
  else (absoluteTimestamp, turnCount)

/-- `FeedData` of a whole tag. -/
def feedData (c : Codecs ν) (s : LiveFlvStream τ ν) (data : List Byte) (absoluteTimestamp : Int) (isAudio : Bool) :
    Option (LiveFlvStream τ ν) :=
  (s.base.cacheCodecInit c data 0 isAudio).map fun base =>
    let (time, turnCount) := turnTime absoluteTimestamp (base.lastTime isAudio) (s.turnCount isAudio)
    { base := { base with
        lastTime := Function.update base.lastTime isAudio time
        outStreams := base.outStreams.map fun x =>
          if x.enqueuedForDelete then x else x.feed c data 0 data.length time isAudio }
      turnCount := Function.update s.turnCount isAudio turnCount }

/-- `SignalOutStreamAttached` -/
def signalOutStreamAttached (c : Codecs ν) (s : LiveFlvStream τ ν) (x : Player τ ν) : Player τ ν :=
  x.feedCodecInit c s.base.codecInit s.base.lastTime

/-- `Link`: the newest player is at the front of the list. -/
def link (c : Codecs ν) (s : LiveFlvStream τ ν) (x : Player τ ν) : LiveFlvStream τ ν :=
  { s with base := { s.base with outStreams := s.signalOutStreamAttached c x :: s.base.outStreams } }

end LiveFlvStream

/-- The rest of the server. -/
structure FlvHost where
  /-- `StreamNameAvailable(streamName)`; no name stands for the one that is made up. -/
  streamNameAvailable : (streamName : List Byte) → Bool
  /-- What `AMF0Serializer` reads in a script tag: the `streamName` in it, or a failure. -/
  readNotify : (data : List Byte) → Option (List Byte)

/-- `InboundLiveFLVProtocol` -/
structure LiveFlv (τ ν : Type) where
  headerParsed : Bool
  waitForMetadata : Bool
  stream : Option (LiveFlvStream τ ν)

namespace LiveFlv

/-- `InitializeStream` -/
def initializeStream (h : FlvHost) (s : LiveFlv τ ν) (streamName : List Byte) : Option (LiveFlv τ ν) :=
  if h.streamNameAvailable streamName then some { s with stream := some .new } else none

/-- What `SignalInputData` does first: the connection, or nothing if it fails. -/
def initialized (h : FlvHost) (s : LiveFlv τ ν) : Option (LiveFlv τ ν) :=
  if s.stream.isNone && !s.waitForMetadata then s.initializeStream h [] else some s

/-- `_pStream->FeedData(..)`, if there is a stream. -/
def fed (c : Codecs ν) (s : LiveFlv τ ν) (data : List Byte) (timestamp : Nat) (isAudio : Bool) :
    Option (LiveFlv τ ν) :=
  match s.stream with
  | some stream => (stream.feedData c data timestamp isAudio).map fun stream => { s with stream := some stream }
  | none => some s

/-- A script tag. -/
def notified (h : FlvHost) (s : LiveFlv τ ν) (data : List Byte) : Option (LiveFlv τ ν) := do
  let streamName ← h.readNotify data
  if s.stream.isNone then s.initializeStream h streamName else some s

/-- The `switch` over the type of a tag. -/
def pumped (c : Codecs ν) (h : FlvHost) (s : LiveFlv τ ν) (type : Nat) (data : List Byte) (timestamp : Nat) :
    Option (LiveFlv τ ν) :=
  if type = 8 then s.fed c data timestamp true
  else if type = 9 then s.fed c data timestamp false
  else if type = 18 then s.notified h data
  else none

/-- `ENTOHLP(GETIBPOINTER(buffer) + 1) >> 8` -/
def tagLength (buffer : List Byte) : Nat := flvUI24 buffer 1

/-- `ENTOHAP(GETIBPOINTER(buffer) + 4)`: the byte behind the first three is the highest one. -/
def tagTimestamp (buffer : List Byte) : Nat := flvUI24 buffer 4 + byteAt buffer 7 * 2 ^ 24

/-- A round of the loop in `SignalInputData`, or the header of the file. -/
def inputTurn (c : Codecs ν) (h : FlvHost) (s : LiveFlv τ ν) (buffer : List Byte) : Turn (LiveFlv τ ν) Byte :=
  if !s.headerParsed then
    if buffer.length < 13 then .wait s buffer else .next { s with headerParsed := true } (buffer.drop 13)
  else if buffer.length < 11 then .wait s buffer
  else
    let length := tagLength buffer
    if 1024 * 1024 ≤ length then .fail s
    else if buffer.length < length + 15 then .wait s buffer
    else
      match s.pumped c h (byteAt buffer 0) ((buffer.drop 11).take length) (tagTimestamp buffer) with
      | some s => .next s (buffer.drop (11 + (length + 4)))
      | none => .fail s

/-- A bound for the rounds that are left. -/
def inputRounds (_ : LiveFlv τ ν) (buffer : List Byte) : Nat := buffer.length

/-- `SignalInputData` with what is in the buffer. -/
def signalInputData (c : Codecs ν) (h : FlvHost) (s : LiveFlv τ ν) (buffer : List Byte) :
    Except (LiveFlv τ ν) (LiveFlv τ ν × List Byte) :=
  match s.initialized h with
  | some s => loopTurns (inputTurn c h) (inputRounds s buffer + 1) s buffer
  | none => .error s

end LiveFlv

end XH.Impl.Live
