import Xhome.Impl.Live.OutStream

/-!
# The stream of a publisher (`live/crtmpserver-717`, `innetrtmpstream.cpp`, `baseinstream.cpp`)

`FeedData` hands each piece of a publisher's frames on to the streams of all its
players, and keeps what sets the codecs up for the players that join later. A
player's stream and its connection are one record here; a stream whose `FeedData`
fails is enqueued for delete with its connection and is fed no more.

What `CalcFrameLevel` makes of a piece, with the state of its parser, and what
`InitAudioAAC` and `InitVideoH264` make of a codec's setup are parameters
(`Codecs`). A publisher's messages are left out, also the last one, which a new
player is sent; they are among the other things that a player is sent. Counters,
log lines, the limit `maxIdle` of a configuration and a publisher that plays its
own stream on the same connection are left out.
-/

namespace XH.Impl.Live

/-- The parsers of the codecs, with the state `ν` of the one of a player's stream. -/
structure Codecs (ν : Type) where
  calcFrameLevel : ν → (data : List Byte) → ν × Nat
  initAudioAAC : (data : List Byte) → Bool
  initVideoH264 : (data : List Byte) → Bool

/-- A player: its stream, its connection, and how much of what is sent the socket has taken. -/
structure Player (τ ν : Type) where
  stream : OutStream
  connection : Connection τ
  nal : ν
  drained : Nat
  enqueuedForDelete : Bool

/-- `lastTime` is `_lastAudioTime` and `_lastVideoTime`, `codecInit` is
`_audioCodecInit` and `_videoCodecInit`; the audio's are those for `true`. -/
structure InStream (τ ν : Type) where
  lastTime : Bool → Int
  codecInit : Bool → List Byte
  outStreams : List (Player τ ν)

variable {τ ν : Type}

namespace Player

/-- The piece as `FeedData` of the player's stream reads it, and the parser behind it. -/
def read (c : Codecs ν) (x : Player τ ν) (data : List Byte) (processedLength totalLength : Nat)
    (absoluteTimestamp : Int) (isAudio : Bool) : ν × Feed :=
  let (nal, frameLevel) :=
    if x.stream.paused || isAudio || processedLength ≠ 0 then (x.nal, 0) else c.calcFrameLevel x.nal data
  (nal, ⟨data, processedLength, totalLength, absoluteTimestamp, isAudio, frameLevel,
    x.connection.outputBuffer.length - x.drained⟩)

/-- `pTemp->info->FeedData(..)`, and `EnqueueForDelete()` if it fails. -/
def feed (c : Codecs ν) (x : Player τ ν) (data : List Byte) (processedLength totalLength : Nat)
    (absoluteTimestamp : Int) (isAudio : Bool) : Player τ ν :=
  let (nal, f) := x.read c data processedLength totalLength absoluteTimestamp isAudio
  match x.stream.feedData x.connection f with
  | some (stream, connection) => { x with stream := stream, connection := connection, nal := nal }
  | none => { x with enqueuedForDelete := true }

/-- A new player is fed what sets the codecs up, the video's first. -/
def feedCodecInit (c : Codecs ν) (x : Player τ ν) (codecInit : Bool → List Byte) (time : Bool → Int) : Player τ ν :=
  let feedInit (x : Player τ ν) (isAudio : Bool) : Player τ ν :=
    if (codecInit isAudio).length ≠ 0 then
      x.feed c (codecInit isAudio) 0 (codecInit isAudio).length (time isAudio) isAudio
    else x
  feedInit (feedInit x false) true

end Player

namespace InStream

/-- `InitializeAudioCapabilities` -/
def initializeAudioCapabilities (c : Codecs ν) (s : InStream τ ν) (data : List Byte) : Option (InStream τ ν) :=
  if data.length < 4 then none
  else if c.initAudioAAC (data.drop 2) then some { s with codecInit := Function.update s.codecInit true data }
  else none

/-- `InitializeVideoCapabilities` -/
def initializeVideoCapabilities (c : Codecs ν) (s : InStream τ ν) (data : List Byte) : Option (InStream τ ν) :=
  if data.length = 0 then none
  else if c.initVideoH264 data then some { s with codecInit := Function.update s.codecInit false data }
  else none

/-- What sets a codec up is looked at and kept. -/
def cacheCodecInit (c : Codecs ν) (s : InStream τ ν) (data : List Byte) (processedLength : Nat) (isAudio : Bool) :
    Option (InStream τ ν) :=
  if isAudio then
    if processedLength = 0 ∧ data.getD 0 0 >>> 4 = 10 ∧ data.getD 1 0 = 0 then s.initializeAudioCapabilities c data
    else some s
  else if processedLength = 0 ∧ data.getD 0 0 = 0x17 ∧ data.getD 1 0 = 0 then s.initializeVideoCapabilities c data
  else some s

/-- `FeedData`; the times of the audio and those of the video do not run back. -/
def feedData (c : Codecs ν) (s : InStream τ ν) (data : List Byte) (processedLength totalLength : Nat)
    (absoluteTimestamp : Int) (isAudio : Bool) : Option (InStream τ ν) :=
  (s.cacheCodecInit c data processedLength isAudio).map fun s =>
    let absoluteTimestamp :=
      if absoluteTimestamp < s.lastTime isAudio then s.lastTime isAudio else absoluteTimestamp
    { s with
      lastTime := Function.update s.lastTime isAudio absoluteTimestamp
      outStreams := s.outStreams.map fun x =>
        if x.enqueuedForDelete then x
        else x.feed c data processedLength totalLength absoluteTimestamp isAudio }

/-- `SignalOutStreamAttached`; the time of the audio is the one of the video's setup too. -/
def signalOutStreamAttached (c : Codecs ν) (s : InStream τ ν) (x : Player τ ν) : Player τ ν :=
  x.feedCodecInit c s.codecInit fun _ => s.lastTime true

/-- `Link`: the newest player is at the front of the list. -/
def link (c : Codecs ν) (s : InStream τ ν) (x : Player τ ν) : InStream τ ν :=
  { s with outStreams := s.signalOutStreamAttached c x :: s.outStreams }

end InStream

/-- The application of a connection that publishes on the stream `si`. -/
def publishApp (c : Codecs ν) (si : Nat) : App (InStream τ ν) where
  inNet _ i := i == si
  feedData s _ data processedLength totalLength absoluteTimestamp isAudio :=
    s.feedData c data processedLength totalLength absoluteTimestamp isAudio
  inboundMessage s _ _ := some (s, [])

end XH.Impl.Live
