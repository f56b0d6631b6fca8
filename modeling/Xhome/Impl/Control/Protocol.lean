import Xhome.Framework.Memory
import Xhome.Framework.Utf8

/-!
# The control protocol (`ProtocolUtil`, `CodecUtil`, `BinaryServerDecoder`)

A message is a header of 20 bytes and a body of typed values, all numbers
little-endian. A buffer is the list of its readable bytes; `now` is
`System.currentTimeMillis() / 1000`, which `Header.getTimeStamp` returns. A
reference that may be `null` is an `Option`, an exception is a `Fault`.
-/

namespace XH.Impl.Control

/-- The exceptions the codec can throw. -/
inductive Fault where
  | nullPointer
  | indexOutOfBounds
  | negativeArraySize
  | illegalArgument
  | classCast
  /-- `Maximum size of 2gb exceeded` -/
  | illegalState
  deriving Repr, DecidableEq

/-- An element of a message's data list. -/
inductive Datum where
  | integer (v : BitVec 32)
  | long (v : BitVec 64)
  | string (s : List CodeUnit)
  /-- An object of any other class. -/
  | other
  | null
  deriving Repr, DecidableEq

structure Header where
  version : Option (BitVec 32)
  seqNo : Option (BitVec 32)
  timeStamp : Option (BitVec 32)
  reserved : Option (BitVec 32)
  bodyLength : Option (BitVec 32)
  deriving Repr, DecidableEq

structure Message where
  header : Option Header
  data : Option (List Datum)
  messageType : Option (BitVec 32)
  deriving Repr, DecidableEq

/-- `DataType` -/
inductive DataType where
  | integer
  | long
  | string
  | array
  | struct
  deriving Repr, DecidableEq

def DataType.getValue : DataType → BitVec 32
  | .integer => 0
  | .long => 1
  | .string => 2
  | .array => 3
  | .struct => 4

/-- `Constant.HEADER_SIZE` -/
def headerSize : Nat := 20

/-! ## Buffers -/

def writeInt (v : BitVec 32) : List Byte := bytesOf 4 v.toNat

def writeLong (v : BitVec 64) : List Byte := bytesOf 8 v.toNat

/-- The sizes and indices of a buffer are `int`s. -/
def dynamicBuffer (bs : List Byte) : Except Fault (List Byte) :=
  if bs.length < 2 ^ 31 then .ok bs else .error .illegalState

/-- A buffer of a fixed size, filled; a size beyond an `int` is negative. -/
def buffer (bs : List Byte) : Except Fault (List Byte) :=
  if bs.length < 2 ^ 31 then .ok bs else .error .illegalArgument

def readBytes (n : Nat) (buf : List Byte) : Except Fault (List Byte × List Byte) :=
  if n ≤ buf.length then .ok (buf.take n, buf.drop n) else .error .indexOutOfBounds

def readInt (buf : List Byte) : Except Fault (BitVec 32 × List Byte) :=
  (readBytes 4 buf).map fun (bs, rest) => (.ofNat 32 (valueOf bs), rest)

def readLong (buf : List Byte) : Except Fault (BitVec 64 × List Byte) :=
  (readBytes 8 buf).map fun (bs, rest) => (.ofNat 64 (valueOf bs), rest)

/-- Unboxing of an `Integer`. -/
def unbox (v : Option (BitVec 32)) : Except Fault (BitVec 32) :=
  match v with
  | some v => .ok v
  | none => .error .nullPointer

/-! ## ProtocolUtil -/

/-- What the loop of `ProtocolUtil.encode` writes for one object. A string is
announced with the number of its `char`s. -/
def encodeDatum : Datum → Except Fault (List Byte)
  | .integer v => .ok (writeInt DataType.integer.getValue ++ writeInt v)
  | .string s =>
    .ok (writeInt DataType.string.getValue ++ writeInt (.ofNat 32 s.length) ++ Utf8.getBytes s)
  | .long v => .ok (writeInt DataType.long.getValue ++ writeLong v)
  | .other => .ok []
  | .null => .error .nullPointer

def encodeData : List Datum → Except Fault (List Byte)
  | [] => .ok []
  | d :: ds => do
    let bs ← encodeDatum d
    let rest ← encodeData ds
    return bs ++ rest

/-- `ProtocolUtil.encode` -/
def encode (data : Option (List Datum)) : Except Fault (List Byte) := do
  match data with
  | none => return []
  | some [] => return []
  | some ds => dynamicBuffer (← encodeData ds)

/-- A string: its size, then that many bytes. -/
def readString (buf : List Byte) : Except Fault (Datum × List Byte) := do
  let (size, buf) ← readInt buf
  if size.toInt < 0 then throw .negativeArraySize
  let (contents, buf) ← readBytes size.toNat buf
  return (.string (Utf8.newString contents), buf)

/-- One round of the loop of `ProtocolUtil.decoder`: a value of a type it does
not read adds nothing. -/
def readDatum (buf : List Byte) : Except Fault (Option Datum × List Byte) := do
  let (type, buf) ← readInt buf
  if type = DataType.integer.getValue then
    let (v, buf) ← readInt buf
    return (some (.integer v), buf)
  else if type = DataType.string.getValue then
    let (v, buf) ← readString buf
    return (some v, buf)
  else if type = DataType.long.getValue then
    let (v, buf) ← readLong buf
    return (some (.long v), buf)
  else
    return (none, buf)

/-- The loop of `ProtocolUtil.decoder`: `processIndex` counts the bytes read,
so it ends with the buffer. Each round reads at least four bytes, and `fuel`
counts the rounds. -/
def decoderLoop : Nat → List Byte → Except Fault (List Datum)
  | 0, _ => .ok []
  | _ + 1, [] => .ok []
  | fuel + 1, b :: bs => do
    let (d, buf) ← readDatum (b :: bs)
    let ds ← decoderLoop fuel buf
    return d.toList ++ ds

/-- `ProtocolUtil.decoder` -/
def decoder (dataBuffer : List Byte) : Except Fault (Option (List Datum)) :=
  match dataBuffer with
  | [] => .ok none
  | b :: bs => (decoderLoop (bs.length + 1) (b :: bs)).map some

/-! ## CodecUtil -/

/-- `CodecUtil.encodeMessage` -/
def encodeMessage (now : BitVec 32) (msg : Option Message) : Except Fault (List Byte) := do
  match msg with
  | none => return []
  | some msg =>
    let dataBuffer ← encode msg.data
    match msg.header with
    | none => throw .nullPointer
    | some header =>
      let headBuffer := writeInt (← unbox header.version) ++ writeInt (← unbox header.seqNo) ++ writeInt now
        ++ writeInt (← unbox header.reserved) ++ writeInt (.ofNat 32 dataBuffer.length)
      buffer (headBuffer ++ dataBuffer)

/-! ## BinaryServerDecoder -/

/-- The header at the front of a buffer that holds one. -/
def readHeader (buf : List Byte) : Header × List Byte :=
  let int k : Option (BitVec 32) := some (.ofNat 32 (valueOf ((buf.drop k).take 4)))
  (⟨int 0, int 4, int 8, int 12, int 16⟩, buf.drop headerSize)

/-- `(Integer)data.get(0)` -/
def messageTypeOf : List Datum → Except Fault (Option (BitVec 32))
  | [] => .error .indexOutOfBounds
  | .integer v :: _ => .ok (some v)
  | .null :: _ => .ok none
  | _ :: _ => .error .classCast

/-- The message in a body. -/
def readBody (header : Header) (dataBuffer : List Byte) : Except Fault (Option Message) := do
  match ← decoder dataBuffer with
  | none => return none
  | some data =>
    let messageType ← messageTypeOf data
    return some ⟨some header, some data, messageType⟩

/-- `BinaryServerDecoder.decode`: what it returns or throws, and the bytes left
behind the reader index. -/
def decode (buffer : List Byte) : Except Fault (Option Message) × List Byte :=
  if buffer.length < headerSize then (.ok none, buffer)
  else
    let (header, rest) := readHeader buffer
    let bodyLength := header.bodyLength.getD 0
    if (rest.length : Int) < bodyLength.toInt then (.ok none, buffer)
    else if bodyLength.toInt < 0 then (.error .illegalArgument, rest)
    else (readBody header (rest.take bodyLength.toNat), rest.drop bodyLength.toNat)

end XH.Impl.Control
