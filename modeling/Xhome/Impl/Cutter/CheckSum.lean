import Xhome.Impl.Cutter.Flv

/-!
# The block checksum (`check_sum_new` of `PieceWriter.cpp`)

The buffers are consumed eight bytes at a time; the last byte of the last
buffer is set aside, the at most seven bytes before it are consumed one by
one, and the last byte after them.

The worker is compiled with `-m32`: a `size_t` has 32 bits like `size`, which is
the length of the buffer.
-/

namespace XH.Impl.Cutter

/-- `(uint32_t)0x20110312312LL`. -/
def crcInit : BitVec 32 := BitVec.ofNat 32 0x20110312312

/-- Four bytes read through a `uint32_t const *` on a little-endian host. -/
def wordLE (b₀ b₁ b₂ b₃ : Byte) : BitVec 32 := b₃ ++ b₂ ++ b₁ ++ b₀

/-- The step on two words `v0`, `v1`. -/
def crcWords (crc v0 v1 : BitVec 32) : BitVec 32 := crc ^^^ (((crc <<< 14) ^^^ (crc >>> 6)) ^^^ (v0 ^^^ v1))

/-- The step on one byte. -/
def crcByte (crc : BitVec 32) (b : Byte) : BitVec 32 :=
  crc ^^^ ((crc >>> 13) ^^^ b.setWidth 32 ^^^ (crc <<< 7))

/-- `while (size >= 8)`: the new `crc` and the bytes left at `buf`. -/
def crcLoop : BitVec 32 → List Byte → BitVec 32 × List Byte
  | crc, b₀ :: b₁ :: b₂ :: b₃ :: b₄ :: b₅ :: b₆ :: b₇ :: rest =>
    crcLoop (crcWords crc (wordLE b₀ b₁ b₂ b₃) (wordLE b₄ b₅ b₆ b₇)) rest
  | crc, rest => (crc, rest)

/-- The bytes left after the words, then the byte set aside. -/
def crcTail (crc : BitVec 32) (rest : List Byte) (lastByte : Byte) : BitVec 32 :=
  crcByte (rest.foldl crcByte crc) lastByte

/-- `check_sum_new` from `crc` on. -/
def checkSumFrom (crc : BitVec 32) : List Buffer → BitVec 32
  | [] => crcTail crc [] 0
  | [b] =>
    let r := crcLoop crc (b.take (b.length - 1))
    crcTail r.1 r.2 (b.getD (b.length - 1) 0)
  | b :: bs => checkSumFrom (crcLoop crc b).1 bs

def checkSumNew (buffers : List Buffer) : BitVec 32 := checkSumFrom crcInit buffers

end XH.Impl.Cutter
