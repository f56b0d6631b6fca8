import Xhome.Framework.Memory

/-!
# RTMP chunk headers (`live/crtmpserver-717`, `header_le_ba.cpp`, `channel.h`)

The header of a chunk on a little endian machine: `Header::Read` and
`Header::Write`, with the channel that remembers the last header of each
direction. `hf` is a union: `datac` are its bytes, the bit field of `ml` in
`datac[4..6]` and `mt` in `datac[7]`. A `double` of a channel is a whole number
of milliseconds. Log lines and the checks of `ENFORCE_RTMP_OUTPUT_CHECKS`, which
is not defined, are left out, and so are `lastInStreamId` and
`lastOutHeaderType`, which nothing reads.
-/

namespace XH.Impl.Live

/-- `ntohl`, which is also `htonl` -/
def ntohl (x : BitVec 32) : BitVec 32 := .ofNat 32 (valueOf (bytesOf 4 x.toNat).reverse)

/-! ## Header types -/

def htFull : BitVec 8 := 0
def htSameStream : BitVec 8 := 1
def htSameLengthAndStream : BitVec 8 := 2
def htContinuation : BitVec 8 := 3

/-- The fields of the union `hf`. -/
structure HeaderFields where
  ts : BitVec 32
  ml : BitVec 24
  mt : BitVec 8
  si : BitVec 32
  deriving DecidableEq

namespace HeaderFields

def datac (f : HeaderFields) : List Byte :=
  bytesOf 4 f.ts.toNat ++ (bytesOf 3 f.ml.toNat ++ (bytesOf 1 f.mt.toNat ++ bytesOf 4 f.si.toNat))

/-- The fields in these bytes. -/
def ofDatac (b : List Byte) : HeaderFields where
  ts := .ofNat 32 (valueOf (b.take 4))
  ml := .ofNat 24 (valueOf ((b.drop 4).take 3))
  mt := .ofNat 8 (valueOf ((b.drop 7).take 1))
  si := .ofNat 32 (valueOf ((b.drop 8).take 4))

/-- `memcpy(hf.datac + 1, p, n)` -/
def copyIn (f : HeaderFields) (p : List Byte) (n : Nat) : HeaderFields :=
  ofDatac (f.datac.take 1 ++ (p.take n ++ f.datac.drop (n + 1)))

/-- The `n` bytes from `&hf.datac[1]` on. -/
def copyOut (f : HeaderFields) (n : Nat) : List Byte := (f.datac.drop 1).take n

/-- `ts` as it is put into the union before it is written. -/
def swapTs (f : HeaderFields) (ts : BitVec 32) : HeaderFields := { f with ts := ntohl ts }

/-- `ml = EHTONL(ml << 8)` -/
def swapMl (f : HeaderFields) : HeaderFields := { f with ml := (ntohl (f.ml.setWidth 32 <<< 8)).setWidth 24 }

/-- `ml = ENTOHL(ml) >> 8` -/
def unswapMl (f : HeaderFields) : HeaderFields := { f with ml := (ntohl (f.ml.setWidth 32) >>> 8).setWidth 24 }

end HeaderFields

structure Header where
  ci : Nat
  ht : BitVec 8
  hf : HeaderFields
  readCompleted : Bool
  isAbsolute : Bool
  skip4bytes : Bool
  deriving DecidableEq

/-- `memset(&header, 0, sizeof (header))` -/
def Header.zero : Header := ⟨0, 0, ⟨0, 0, 0, 0⟩, false, false, false⟩

inductive ChannelState where
  | header
  | payload
  deriving DecidableEq

structure Channel where
  id : Nat
  state : ChannelState
  inputData : List Byte
  lastInHeader : Header
  lastInHeaderType : BitVec 8
  lastInProcBytes : Nat
  lastInAbsTs : Int
  lastOutHeader : Header
  lastOutProcBytes : Nat
  lastOutAbsTs : Int
  lastOutStreamId : BitVec 32

def Channel.reset (c : Channel) : Channel :=
  { id := c.id, state := .header, inputData := [], lastInHeader := .zero, lastInHeaderType := 0, lastInProcBytes := 0,
    lastInAbsTs := 0, lastOutHeader := .zero, lastOutProcBytes := 0, lastOutAbsTs := 0, lastOutStreamId := 0xffffffff }

/-! ## `Header::Read` -/

namespace Header

/-- The cases of `Read` for the header types with fields: `n` bytes of them, and
`lengthToo` if the message length is one. -/
def readFields (h : Header) (n : Nat) (lengthToo : Bool) (buffer : List Byte) (availableBytes : Nat) :
    Header × List Byte :=
  if availableBytes < n then ({ h with readCompleted := false }, buffer)
  else
    let hf := h.hf.copyIn buffer n
    let hf := { hf with ts := ntohl hf.ts &&& 0x00ffffff }
    let hf := if lengthToo then hf.unswapMl else hf
    if hf.ts = 0x00ffffff then
      if availableBytes < n + 4 then ({ h with hf := hf, skip4bytes := true, readCompleted := false }, buffer)
      else
        let hf := { hf with ts := ntohl (.ofNat 32 (valueOf ((buffer.drop n).take 4))) }
        ({ h with hf := hf, skip4bytes := true, readCompleted := true }, buffer.drop (n + 4))
    else ({ h with hf := hf, skip4bytes := false, readCompleted := true }, buffer.drop n)

/-- `Header::Read`: what it returns, the header and the buffer. -/
def read (h : Header) (channelId : Nat) (type : BitVec 8) (buffer : List Byte) (availableBytes : Nat) :
    Bool × Header × List Byte :=
  let h := { h with ht := type, ci := channelId }
  if type = htFull then (true, { h with isAbsolute := true }.readFields 11 true buffer availableBytes)
  else if type = htSameStream then (true, { h with isAbsolute := false }.readFields 7 true buffer availableBytes)
  else if type = htSameLengthAndStream then
    (true, { h with isAbsolute := false }.readFields 3 false buffer availableBytes)
  else if type = htContinuation then
    let h := { h with isAbsolute := false }
    if h.skip4bytes then
      if availableBytes < 4 then (true, { h with readCompleted := false }, buffer)
      else (true, { h with readCompleted := true }, buffer.drop 4)
    else (true, { h with readCompleted := true }, buffer)
  else (false, h, buffer)

/-! ## `Header::Write` -/

/-- The bytes with the header type and the channel; `none` for an invalid channel index. -/
def channelBytes (h : Header) : Option (List Byte) :=
  if h.ci < 64 then some [h.ht <<< 6 ||| .ofNat 8 h.ci]
  else if h.ci < 319 then some [h.ht <<< 6, .ofNat 8 (h.ci - 64)]
  else if h.ci < 65599 then some ((h.ht <<< 6 ||| 0x01) :: (bytesOf 2 (h.ci - 64)).reverse)
  else none

/-- The cases of `Write` for the header types with fields: the header behind it and the bytes. -/
def writeFields (h : Header) (n : Nat) (lengthToo : Bool) : Header × List Byte :=
  if h.hf.ts < 0x00ffffff then
    let hf := h.hf.swapTs h.hf.ts
    let hf := if lengthToo then hf.swapMl else hf
    let bytes := hf.copyOut n
    let hf := hf.swapTs hf.ts
    let hf := if lengthToo then hf.unswapMl else hf
    ({ h with hf := hf }, bytes)
  else
    let temp := ntohl h.hf.ts
    let hf := h.hf.swapTs 0x00ffffff
    let hf := if lengthToo then hf.swapMl else hf
    let bytes := hf.copyOut n
    let hf := hf.swapTs temp
    let hf := if lengthToo then hf.unswapMl else hf
    ({ h with hf := hf }, bytes ++ bytesOf 4 temp.toNat)

/-- `Header::Write(IOBuffer &buffer)`: what it returns, the header and the buffer. -/
def write (h : Header) (buffer : List Byte) : Bool × Header × List Byte :=
  match h.channelBytes with
  | none => (false, h, buffer)
  | some bytes =>
    let buffer := buffer ++ bytes
    let fields (r : Header × List Byte) : Bool × Header × List Byte := (true, r.1, buffer ++ r.2)
    if h.ht = htFull then fields (h.writeFields 11 true)
    else if h.ht = htSameStream then fields (h.writeFields 7 true)
    else if h.ht = htSameLengthAndStream then fields (h.writeFields 3 false)
    else if h.ht = htContinuation then
      if 0x00ffffff ≤ h.hf.ts then
        let temp := ntohl h.hf.ts
        fields ({ h with hf := { h.hf with ts := ntohl temp } }, bytesOf 4 temp.toNat)
      else (true, h, buffer)
    else (false, h, buffer)

/-- The header type that `Write` computes, with what it notes in the header and the channel. -/
def chooseType (h : Header) (channel : Channel) : Header × Channel :=
  if channel.lastOutStreamId = h.hf.si then
    if h.isAbsolute then
      if channel.lastOutProcBytes = 0 then
        ({ h with ht := htFull }, { channel with lastOutAbsTs := h.hf.ts.toNat })
      else ({ h with ht := htContinuation }, channel)
    else if channel.lastOutProcBytes = 0 then
      let last := channel.lastOutHeader.hf
      let ht :=
        if h.hf.mt = last.mt ∧ h.hf.ml = last.ml then
          if h.hf.ts = last.ts then htContinuation else htSameLengthAndStream
        else htSameStream
      ({ h with ht := ht }, { channel with lastOutAbsTs := channel.lastOutAbsTs + h.hf.ts.toNat })
    else ({ h with ht := htContinuation }, channel)
  else
    ({ h with ht := htFull, isAbsolute := true },
      { channel with lastOutAbsTs := h.hf.ts.toNat, lastOutStreamId := h.hf.si })

/-- `Header::Write(Channel &channel, IOBuffer &buffer)`: what it returns, the
header, the channel and the buffer. -/
def writeTo (h : Header) (channel : Channel) (buffer : List Byte) : Bool × Header × Channel × List Byte :=
  let (h, channel) := h.chooseType channel
  let channel := { channel with lastOutHeader := h }
  let (ok, h, buffer) := h.write buffer
  (ok, h, channel, buffer)

end Header

end XH.Impl.Live
