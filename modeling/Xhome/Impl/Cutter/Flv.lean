import Xhome.Framework.Word

/-!
# FLV tags (`FlvStuff.h`)

A buffer is the bytes of a `lite_buffer`. `FLVFileHeader_t`, `FLVTagHeader_t`,
`AudioTagDataHeader_t` and `VideoTagDataHeader_t` are read through a pointer
cast, so their fields are functions of the buffer: `type` is byte 0, `datasize`
bytes 1–3, `timestamp` bytes 4–6 and `timestamp_ex` byte 7.
-/

namespace XH.Impl.Cutter

/-- `lite_buffer`: `buf_`, with `size_` its length. -/
abbrev Buffer := List Byte

/-- `std::vector<liter_buffer_ptr>`. -/
abbrev Piece := List Buffer

/-- The total of `size_` over the buffers of a piece. -/
def Piece.size (p : Piece) : Nat := (p.map List.length).sum

def flvFileheaderTSize : Nat := 13
def flvTagheaderTSize : Nat := 11
def flvPrevioustagsizeSize : Nat := 4

def flvAudiodata : Nat := 8
def flvVideodata : Nat := 9

def byteAt (b : Buffer) (i : Nat) : Nat := (b.getD i 0).toNat

/-- `FLV_UI24` at offset `o`. -/
def flvUI24 (b : Buffer) (o : Nat) : Nat := byteAt b o * 2 ^ 16 + byteAt b (o + 1) * 2 ^ 8 + byteAt b (o + 2)

/-- `FLV_UI32` at offset `o`. -/
def flvUI32 (b : Buffer) (o : Nat) : Nat :=
  byteAt b o * 2 ^ 24 + byteAt b (o + 1) * 2 ^ 16 + byteAt b (o + 2) * 2 ^ 8 + byteAt b (o + 3)

/-- `flvTagHeader->type`. -/
def tagType (b : Buffer) : Nat := byteAt b 0

/-- `FLV_UI24(flvTagHeader->datasize)`. -/
def tagDatasize (b : Buffer) : Nat := flvUI24 b 1

/-- `FLVTagHeader_t::get_tag_ts`; the two operands of `|` have no bit in common. -/
def getTagTs (b : Buffer) : Nat := flvUI24 b 4 + byteAt b 7 * 2 ^ 24

/-- `FLVTagHeader_t::set_tag_ts`. -/
def setTagTs (b : Buffer) (ts : Nat) : Buffer :=
  (((b.set 6 (BitVec.ofNat 8 ts)).set 5 (BitVec.ofNat 8 (ts / 2 ^ 8))).set 4
    (BitVec.ofNat 8 (ts / 2 ^ 16))).set 7 (BitVec.ofNat 8 (ts / 2 ^ 24))

/-- `(aHeader->audioformat & 0xf0) == 0xa0`. -/
def isAac (body : Buffer) : Bool := byteAt body 0 / 16 == 0xa

/-- `(vHeader->frameandcodetype & 0xf) == 0x07`. -/
def isAvc (body : Buffer) : Bool := byteAt body 0 % 16 == 7

/-- `aacpackettype == 0`, `avcpackettype == 0`: a sequence header. -/
def isSequenceHeader (body : Buffer) : Bool := byteAt body 1 == 0

/-- `(vHeader->frameandcodetype & 0xf0) == 0x10`. -/
def isKeyFrame (body : Buffer) : Bool := byteAt body 0 / 16 == 1

theorem Piece.size_nil : Piece.size [] = 0 := rfl

theorem Piece.size_cons (b : Buffer) (p : Piece) : Piece.size (b :: p) = b.length + Piece.size p := by
  simp [Piece.size]

theorem Piece.size_append (p q : Piece) : Piece.size (p ++ q) = Piece.size p + Piece.size q := by
  simp [Piece.size]

theorem Piece.length_flatten (p : Piece) : p.flatten.length = Piece.size p := List.length_flatten

@[simp] theorem length_setTagTs (b : Buffer) (ts : Nat) : (setTagTs b ts).length = b.length := by
  simp [setTagTs]

/-- Only bytes 4–7 change. -/
theorem getElem?_setTagTs (b : Buffer) (ts : Nat) {i : Nat} (h : i < 4 ∨ 7 < i) :
    (setTagTs b ts)[i]? = b[i]? := by
  simp only [setTagTs]
  rw [List.getElem?_set_ne (by omega), List.getElem?_set_ne (by omega), List.getElem?_set_ne (by omega),
    List.getElem?_set_ne (by omega)]

theorem byteAt_setTagTs (b : Buffer) (ts : Nat) {i : Nat} (h : i < 4 ∨ 7 < i) :
    byteAt (setTagTs b ts) i = byteAt b i := by
  simp only [byteAt, List.getD_eq_getElem?_getD, getElem?_setTagTs b ts h]

@[simp] theorem tagType_setTagTs (b : Buffer) (ts : Nat) : tagType (setTagTs b ts) = tagType b :=
  byteAt_setTagTs b ts (.inl (by decide))

@[simp] theorem tagDatasize_setTagTs (b : Buffer) (ts : Nat) : tagDatasize (setTagTs b ts) = tagDatasize b := by
  simp only [tagDatasize, flvUI24, byteAt_setTagTs b ts (.inl (by decide : 1 < 4)),
    byteAt_setTagTs b ts (.inl (by decide : 1 + 1 < 4)), byteAt_setTagTs b ts (.inl (by decide : 1 + 2 < 4))]

/-- The last timestamp written stays. -/
@[simp] theorem setTagTs_setTagTs (b : Buffer) (ts ts' : Nat) : setTagTs (setTagTs b ts) ts' = setTagTs b ts' := by
  apply List.ext_getElem?
  intro i
  simp only [setTagTs, List.getElem?_set, List.length_set]
  grind

theorem byteAt_setTagTs_ts {b : Buffer} (h : 8 ≤ b.length) (ts : Nat) :
    byteAt (setTagTs b ts) 4 = ts / 2 ^ 16 % 2 ^ 8 ∧ byteAt (setTagTs b ts) 5 = ts / 2 ^ 8 % 2 ^ 8 ∧
      byteAt (setTagTs b ts) 6 = ts % 2 ^ 8 ∧ byteAt (setTagTs b ts) 7 = ts / 2 ^ 24 % 2 ^ 8 := by
  have h₄ : 4 < b.length := by omega
  have h₅ : 5 < b.length := by omega
  have h₆ : 6 < b.length := by omega
  have h₇ : 7 < b.length := by omega
  simp [byteAt, setTagTs, h₄, h₅, h₆, h₇, List.getD_eq_getElem?_getD]

/-- The timestamp of a tag header is the one written. -/
theorem getTagTs_setTagTs {b : Buffer} (h : 8 ≤ b.length) {ts : Nat} (ht : ts < 2 ^ 32) : getTagTs (setTagTs b ts) = ts := by
  obtain ⟨h₄, h₅, h₆, h₇⟩ := byteAt_setTagTs_ts h ts
  simp only [getTagTs, flvUI24, h₄, h₅, h₆, h₇]
  omega

end XH.Impl.Cutter
