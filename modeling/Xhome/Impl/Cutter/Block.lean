import Xhome.Impl.Cutter.CheckSum

/-!
# Block files (`Piece.h`, the block header of `PieceWriter.cpp`)

`FLV_BLOCK_HEADER` with its serialization, the built-in tags, and the values
`CPPLBlockWriter::HandleWritePiece` and `WriteOneSpecialPiece` assign to the
header of a block before they write it. The two routines hold the same code,
which is given once here. The layout of the structure in memory is that of its
serialization (no padding, little-endian host), so the digest is taken over
bytes of the serialization.
-/

namespace XH.Impl.Cutter

def flvBlockHeaderTSize : Nat := 1400
def flvBlockRootHeaderTSize : Nat := 48
def flvBlockSize : Nat := 16 * flvBlockHeaderTSize

/-- The entries `CHECKSUM_LIST[1352]` has room for. -/
def checksumListEntries : Nat := 338

/-- `FLV_BLOCK_HEADER`, with `CHECKSUM_LIST` as 32-bit entries. -/
structure FlvBlockHeader where
  hashValue : Vector Byte 16
  rid : Vector Byte 16
  blockHeaderLength : Nat
  dataLength : Nat
  blockId : Nat
  version : Nat
  checksumList : Vector (BitVec 32) 338
  deriving DecidableEq

/-- A 32-bit value as the archive writes it. -/
def le32 (n : Nat) : List Byte :=
  [BitVec.ofNat 8 n, BitVec.ofNat 8 (n / 2 ^ 8), BitVec.ofNat 8 (n / 2 ^ 16), BitVec.ofNat 8 (n / 2 ^ 24)]

/-- `FLV_BLOCK_HEADER::serialize`. -/
def FlvBlockHeader.serialize (h : FlvBlockHeader) : List Byte :=
  h.hashValue.toList ++ h.rid.toList ++ le32 h.blockHeaderLength ++ le32 h.dataLength ++
    le32 h.blockId ++ le32 h.version ++ h.checksumList.toList.flatMap fun c => le32 c.toNat

/-! ## The built-in tags -/

/-- `CheckPointTagData`. -/
def checkPointTagData : Buffer :=
  [0x12, 0x00, 0x00, 0x68, 0x00, 0x00, 0x00, 0x00, 0x00, 0x00, 0x00, 0x02, 0x00, 0x0a, 0x6f, 0x6e,
    0x43, 0x75, 0x65, 0x50, 0x6f, 0x69, 0x6e, 0x74, 0x08, 0x00, 0x00, 0x00, 0x04, 0x00, 0x04, 0x6e,
    0x61, 0x6d, 0x65, 0x02, 0x00, 0x09, 0x43, 0x75, 0x65, 0x20, 0x50, 0x6f, 0x69, 0x6e, 0x74, 0x00,
    0x04, 0x74, 0x69, 0x6d, 0x65, 0x00, 0x40, 0x02, 0x6a, 0x7e, 0xf9, 0xdb, 0x22, 0xd1, 0x00, 0x04,
    0x74, 0x79, 0x70, 0x65, 0x02, 0x00, 0x05, 0x65, 0x76, 0x65, 0x6e, 0x74, 0x00, 0x0a, 0x70, 0x61,
    0x72, 0x61, 0x6d, 0x65, 0x74, 0x65, 0x72, 0x73, 0x08, 0x00, 0x00, 0x00, 0x01, 0x00, 0x05, 0x73,
    0x74, 0x61, 0x72, 0x74, 0x00, 0x40, 0xfe, 0x24, 0x00, 0x00, 0x00, 0x00, 0x00, 0x00, 0x00, 0x09,
    0x00, 0x00, 0x09, 0x00, 0x00, 0x00, 0x73]

/-- `OffairTagData`. -/
def offairTagData : Buffer :=
  [0x12, 0x00, 0x00, 0x61, 0x00, 0x00, 0x00, 0x00, 0x00, 0x00, 0x00, 0x02, 0x00, 0x0a, 0x6f, 0x6e,
    0x43, 0x75, 0x65, 0x50, 0x6f, 0x69, 0x6e, 0x74, 0x08, 0x00, 0x00, 0x00, 0x04, 0x00, 0x04, 0x6e,
    0x61, 0x6d, 0x65, 0x02, 0x00, 0x09, 0x43, 0x75, 0x65, 0x20, 0x50, 0x6f, 0x69, 0x6e, 0x74, 0x00,
    0x04, 0x74, 0x69, 0x6d, 0x65, 0x00, 0x40, 0x02, 0x6a, 0x7e, 0xf9, 0xdb, 0x22, 0xd1, 0x00, 0x04,
    0x74, 0x79, 0x70, 0x65, 0x02, 0x00, 0x05, 0x65, 0x76, 0x65, 0x6e, 0x74, 0x00, 0x0a, 0x70, 0x61,
    0x72, 0x61, 0x6d, 0x65, 0x74, 0x65, 0x72, 0x73, 0x08, 0x00, 0x00, 0x00, 0x01, 0x00, 0x05, 0x6f,
    0x6e, 0x61, 0x69, 0x72, 0x01, 0x00, 0x00, 0x00, 0x09, 0x00, 0x00, 0x09, 0x00, 0x00, 0x00, 0x6c]

/-- The first `FLV_FILEHEADER_T_SIZE` bytes of `FlvHeader`. -/
def flvHeader : Buffer :=
  [0x46, 0x4c, 0x56, 0x01, 0x05, 0x00, 0x00, 0x00, 0x09, 0x00, 0x00, 0x00, 0x00]

def checkPointOffset : Nat := 101

/-- The bits of the `double` with the value `n`, for `n` below `2^53`. -/
def doubleBits (n : Nat) : Nat :=
  if n = 0 then 0 else (1023 + n.log2) * 2 ^ 52 + (n - 2 ^ n.log2) * 2 ^ (52 - n.log2)

/-- A 64-bit value, most significant byte first. -/
def be64 (n : Nat) : List Byte :=
  [56, 48, 40, 32, 24, 16, 8, 0].map fun k => BitVec.ofNat 8 (n / 2 ^ k)

/-- `memcpy(b + o, src, src.length)`. -/
def overwrite (b : Buffer) (o : Nat) (src : List Byte) : Buffer := b.take o ++ src ++ b.drop (o + src.length)

/-- The cue point with the block id written into it. -/
def setCheckId (tag : Buffer) (id : Nat) : Buffer := overwrite tag checkPointOffset (be64 (doubleBits id))

/-! ## The checksums of a block -/

/-- The variables of the checksum loop: the first `piece_len_` bytes of
`piece_buf_`, the entry `check_sum_val` points at, and the stores made
through it. -/
structure CheckState where
  pieceBuf : List Byte
  checkSumVal : Nat
  stored : List (Nat × BitVec 32)

/-- `*check_sum_val = check_sum_new(buffer(piece_buf_, piece_len_))`. -/
def CheckState.store (st : CheckState) : CheckState :=
  { st with stored := st.stored ++ [(st.checkSumVal, checkSumNew [st.pieceBuf])] }

/-- One round of `while (src_offset != data_len)`. -/
def CheckState.copy (st : CheckState) (src : List Byte) (copyLen : Nat) : CheckState :=
  let st := { st with pieceBuf := st.pieceBuf ++ src.take copyLen }
  if st.pieceBuf.length = flvBlockSize then
    { st.store with checkSumVal := st.checkSumVal + 1, pieceBuf := [] }
  else st

/-- `while (src_offset != data_len)`, `src` the bytes from `src_offset` on.
Every round copies a byte at least, so there are at most `data_len` rounds. -/
def copyLoop : Nat → CheckState → List Byte → CheckState
  | 0, st, _ => st
  | _ + 1, st, [] => st
  | n + 1, st, src =>
    let copyLen := min (flvBlockSize - st.pieceBuf.length) src.length
    copyLoop n (st.copy src copyLen) (src.drop copyLen)

/-- The checksum loop over the buffers of a block, from `piece_len_ = 0`. -/
def checkSumLoop (dataCollection : Piece) : CheckState :=
  dataCollection.foldl (fun st b => copyLoop b.length st b) ⟨[], 0, []⟩

/-- The stores into `CHECKSUM_LIST`, in order, each with its index. -/
def checkSumStores (dataCollection : Piece) : List (Nat × BitVec 32) :=
  let st := checkSumLoop dataCollection
  if st.pieceBuf.length ≠ 0 then st.store.stored else st.stored

/-- The list after the stores; a store past its end does not change it. -/
def storeAll (l : Vector (BitVec 32) 338) (stores : List (Nat × BitVec 32)) : Vector (BitVec 32) 338 :=
  stores.foldl (fun l e => l.setIfInBounds e.1 e.2) l

/-- `BLOCK_HEADER_LENGTH` of a block with `pieceLength` bytes of data. -/
def blockHeaderLengthOf (pieceLength : Nat) : Nat :=
  flvBlockRootHeaderTSize +
    4 * (pieceLength / flvBlockSize + if pieceLength % flvBlockSize ≠ 0 then 1 else 0)

/-- The values of `block_header_` before its digest is taken. -/
def assignBlockHeader (h : FlvBlockHeader) (id pieceLength : Nat) (dataCollection : Piece) : FlvBlockHeader :=
  { h with
    blockHeaderLength := blockHeaderLengthOf pieceLength
    dataLength := pieceLength
    blockId := id
    checksumList := storeAll h.checksumList (checkSumStores dataCollection) }

/-- The bytes `Md5::update` reads: `BLOCK_HEADER_LENGTH - 16` from offset 16. -/
def md5Input (h : FlvBlockHeader) : List Byte := (h.serialize.drop 16).take (h.blockHeaderLength - 16)

/-- `block_header_` with the digest of `md5` in `HASH_VALUE`. -/
def hashBlockHeader (md5 : List Byte → Vector Byte 16) (h : FlvBlockHeader) : FlvBlockHeader :=
  { h with hashValue := md5 (md5Input h) }

end XH.Impl.Cutter
