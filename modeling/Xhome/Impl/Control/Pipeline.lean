import Xhome.Framework.FrameDecoder
import Xhome.Impl.Control.Protocol

/-!
# The pipeline of the control server (`TCPServer.start`)

`TCPServer.start` puts one `BinaryServerDecoder` into the bootstrap's default
pipeline, so that all channels share it. A chunk received on a channel goes to
the frame decoder, which keeps the bytes it could not decode in `cumulation`
and puts them before the next chunk; the messages decoded go to
`ServerHandler.messageReceived` of the channel the chunk came from. An
exception of `decode` reaches `ServerHandler.exceptionCaught`, which closes the
channel. `disconnect` stands for what the frame decoder does then with the
bytes left: the messages it still hands on and the bytes it keeps.
-/

namespace XH.Impl.Control

abbrev ChannelId := Nat

structure Pipeline where
  /-- The bytes that the decoder has kept. -/
  cumulation : List Byte
  /-- The messages that `ServerHandler` has received, with their channels. -/
  received : List (ChannelId × Message)
  closed : List ChannelId

def Pipeline.initial : Pipeline := ⟨[], [], []⟩

/-- A chunk received on a channel. -/
structure Chunk where
  channel : ChannelId
  bytes : List Byte
  deriving DecidableEq

/-- The chunk is handed on: its channel is open and it is not empty. -/
def Pipeline.takes (p : Pipeline) (e : Chunk) : Prop := e.channel ∉ p.closed ∧ e.bytes ≠ []

instance (p : Pipeline) (e : Chunk) : Decidable (p.takes e) :=
  inferInstanceAs (Decidable (e.channel ∉ p.closed ∧ e.bytes ≠ []))

section

variable (disconnect : List Byte → List Message × List Byte)

/-- `FrameDecoder.messageReceived` with the reaction of `ServerHandler`. -/
def messageReceived (p : Pipeline) (e : Chunk) : Pipeline :=
  if p.takes e then
    let d := decodeAll decode (p.cumulation ++ e.bytes)
    match d.fault with
    | none =>
      { p with cumulation := d.rest, received := p.received ++ d.frames.map fun m => (e.channel, m) }
    | some _ =>
      let (ms, rest) := disconnect d.rest
      { cumulation := rest, received := p.received ++ (d.frames ++ ms).map fun m => (e.channel, m),
        closed := e.channel :: p.closed }
  else p

/-- The chunks in the order they arrive. -/
def receiveAll (p : Pipeline) (es : List Chunk) : Pipeline := es.foldl (messageReceived disconnect) p

end

/-- The loop ends with the exception: the bytes left are kept and nothing more is handed on. -/
def noCleanup (rest : List Byte) : List Message × List Byte := ([], rest)

/-- The messages received for a channel. -/
def Pipeline.messagesOf (p : Pipeline) (c : ChannelId) : List Message :=
  (p.received.filter (·.1 = c)).map (·.2)

end XH.Impl.Control
