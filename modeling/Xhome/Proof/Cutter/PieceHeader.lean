import Xhome.Impl.Cutter.PplWriter

/-!
# The header of a PPL file

`serialize` read back into any object recovers every field that was written
(`deserialize_serialize`). A header whose fields are those the routines assign
(`Assigned`) describes its file exactly if the lengths fit their fields and the
ids say the same about it as the routine does (`describesItself_iff`).
-/

namespace XH.Proof.Cutter

open XH.Impl.Cutter

/-! ## Fields -/

theorem length_le32 (n : Nat) : (le32 n).length = 4 := rfl

theorem length_le16 (n : Nat) : (le16 n).length = 2 := rfl

/-- Bytes with the value of the field are read as the field. -/
theorem readLe_append {n w : Nat} {bs : List Byte} {v : BitVec w} (hl : bs.length = n) (hv : ofLe bs = v.toNat)
    (rest : List Byte) : readLe n w (bs ++ rest) = some (v, rest) := by
  have hlen : n ≤ (bs ++ rest).length := by
    rw [List.length_append]
    omega
  rw [readLe, if_pos hlen, List.take_left' hl, List.drop_left' hl, hv, BitVec.ofNat_toNat, BitVec.setWidth_eq]

theorem readLe_le32 (v : BitVec 32) (rest : List Byte) : readLe 4 32 (le32 v.toNat ++ rest) = some (v, rest) := by
  apply readLe_append (length_le32 _)
  simp only [le32, ofLe, BitVec.toNat_ofNat]
  omega

theorem readLe_le16 (v : BitVec 16) (rest : List Byte) : readLe 2 16 (le16 v.toNat ++ rest) = some (v, rest) := by
  apply readLe_append (length_le16 _)
  simp only [le16, ofLe, BitVec.toNat_ofNat]
  omega

theorem readLe_byte (v : BitVec 8) (rest : List Byte) : readLe 1 8 (v :: rest) = some (v, rest) := by
  apply @readLe_append 1 8 [v] v rfl
  simp only [ofLe]
  omega

/-! ## The round trip -/

/-- What reading `h` leaves in the object `old`: the fields of the data header
are there only if the ids are equal. -/
def readInto (old h : PieceHeader) : PieceHeader :=
  if h.pieceId = h.dataHeaderPieceId then h
  else { h with dataHeaderLength := old.dataHeaderLength, dataHeaderCheckSum := old.dataHeaderCheckSum }

theorem deserialize_serialize (old h : PieceHeader) (rest : List Byte) :
    old.deserialize (h.serialize ++ rest) = some (readInto old h, rest) := by
  by_cases hid : h.pieceId = h.dataHeaderPieceId
  · simp only [PieceHeader.serialize, PieceHeader.deserialize, hid, if_true, List.append_assoc, List.cons_append,
      List.nil_append, readLe_le32, readLe_le16, readLe_byte, Option.bind_eq_bind, Option.pure_def, Option.bind_some, readInto]
    cases h
    cases hid
    rfl
  · simp only [PieceHeader.serialize, PieceHeader.deserialize, hid, if_false, List.append_assoc, List.cons_append,
      List.nil_append, readLe_le32, readLe_le16, readLe_byte, Option.bind_eq_bind, Option.pure_def, Option.bind_some, readInto]

theorem length_serialize_piece (h : PieceHeader) :
    h.serialize.length = if h.pieceId = h.dataHeaderPieceId then 30 else 24 := by
  by_cases hid : h.pieceId = h.dataHeaderPieceId
  · simp only [PieceHeader.serialize, if_pos hid]
    rfl
  · simp only [PieceHeader.serialize, if_neg hid]
    rfl

theorem length_content (n : PplNote) : n.content.length = n.header.serialize.length + Piece.size n.body := by
  rw [PplNote.content, List.length_append, Piece.length_flatten]

/-! ## What the routines assign -/

/-- The length of the header as the routine counts it. -/
def headerLengthOf : PplKind → Nat
  | .head _ => pieceHeaderTSize + pieceDataHeaderTSize
  | _ => pieceHeaderTSize

/-- The values the routines give to the fields. -/
structure Assigned (n : PplNote) : Prop where
  pieceLength : n.header.pieceLength = .ofNat 32 (headerLengthOf n.kind + Piece.size n.body)
  pieceHeaderLength : n.header.pieceHeaderLength = .ofNat 16 (headerLengthOf n.kind)
  head : ∀ {headerPiece}, n.kind = .head headerPiece → n.header.pieceId = n.header.dataHeaderPieceId ∧
    n.header.dataHeaderLength = .ofNat 16 (Piece.size headerPiece)

/-- The ids say of the piece what it is: a head piece has the id of the data
header, and no other piece has. -/
def IdsTell (n : PplNote) : Prop :=
  match n.kind with
  | .head _ => True
  | _ => n.header.pieceId ≠ n.header.dataHeaderPieceId

instance (n : PplNote) : Decidable (IdsTell n) := by
  unfold IdsTell
  cases n.kind <;> infer_instance

/-- The file has the length that its header is given. -/
def LengthFits (n : PplNote) : Prop := IdsTell n ∧ n.content.length < 2 ^ 32

instance (n : PplNote) : Decidable (LengthFits n) := inferInstanceAs (Decidable (_ ∧ _))

theorem idsTell_iff {n : PplNote} (ha : Assigned n) : IdsTell n ↔ n.header.serialize.length = headerLengthOf n.kind := by
  rw [length_serialize_piece]
  unfold IdsTell
  cases hk : n.kind with
  | head headerPiece => simp only [(ha.head hk).1, if_true, true_iff]; rfl
  | data seek =>
    by_cases hid : n.header.pieceId = n.header.dataHeaderPieceId <;>
      simp [hid, headerLengthOf, pieceHeaderTSize]
  | special ty =>
    by_cases hid : n.header.pieceId = n.header.dataHeaderPieceId <;>
      simp [hid, headerLengthOf, pieceHeaderTSize]

/-- The size in the header is that of the file. -/
theorem pieceLength_iff {n : PplNote} (ha : Assigned n) : n.content.length = n.header.pieceLength.toNat ↔ LengthFits n := by
  have hs : n.header.serialize.length = 30 ∨ n.header.serialize.length = 24 := by
    rw [length_serialize_piece]
    split
    · exact .inl rfl
    · exact .inr rfl
  have hk : headerLengthOf n.kind = 30 ∨ headerLengthOf n.kind = 24 := by
    cases n.kind with
    | head headerPiece => exact .inl rfl
    | data seek => exact .inr rfl
    | special ty => exact .inr rfl
  have hle : headerLengthOf n.kind ≤ n.header.serialize.length := by
    cases hk : n.kind with
    | head headerPiece =>
      rw [length_serialize_piece, if_pos (ha.head hk).1]
      exact Nat.le_refl 30
    | data seek => show 24 ≤ _; omega
    | special ty => show 24 ≤ _; omega
  rw [LengthFits, idsTell_iff ha, length_content, ha.pieceLength, BitVec.toNat_ofNat]
  omega

/-! ## Files that describe themselves -/

/-- A file with what `n` says was written into it, read into the object `old`:
its lengths are those of the file, the header and the data header, and all
fields written are recovered. -/
structure DescribesTo (old : PieceHeader) (n : PplNote) (content : List Byte) (h : PieceHeader) (rest : List Byte) : Prop where
  read : old.deserialize content = some (h, rest)
  pieceLength : h.pieceLength.toNat = content.length
  pieceHeaderLength : h.pieceHeaderLength.toNat = content.length - rest.length
  headerLength : h.pieceHeaderLength.toNat = if h.pieceId = h.dataHeaderPieceId then 30 else 24
  dataHeaderLength : ∀ {headerPiece}, n.kind = .head headerPiece → h.dataHeaderLength.toNat = Piece.size headerPiece
  recovered : h = readInto old n.header

/-- The file describes itself to every reader. -/
def DescribesItself (n : PplNote) (content : List Byte) : Prop := ∀ old, ∃ h rest, DescribesTo old n content h rest

/-- The condition: the ids tell head pieces from others, the file is shorter
than `2^32` bytes and a data header shorter than `2^16`. -/
structure HeaderSound (n : PplNote) : Prop where
  fits : LengthFits n
  head : ∀ {headerPiece}, n.kind = .head headerPiece → Piece.size headerPiece < 2 ^ 16

theorem describesItself_iff {n : PplNote} (ha : Assigned n) : DescribesItself n n.content ↔ HeaderSound n := by
  have hread : ∀ old : PieceHeader, old.deserialize n.content = some (readInto old n.header, n.body.flatten) := fun old =>
    deserialize_serialize old n.header n.body.flatten
  have hfield : ∀ old : PieceHeader, (readInto old n.header).pieceLength = n.header.pieceLength ∧
      (readInto old n.header).pieceHeaderLength = n.header.pieceHeaderLength ∧
      (readInto old n.header).pieceId = n.header.pieceId ∧
      (readInto old n.header).dataHeaderPieceId = n.header.dataHeaderPieceId := by
    intro old
    unfold readInto
    split <;> exact ⟨rfl, rfl, rfl, rfl⟩
  have hhead : ∀ (old : PieceHeader) {headerPiece}, n.kind = .head headerPiece →
      (readInto old n.header).dataHeaderLength.toNat = Piece.size headerPiece % 2 ^ 16 := by
    intro old hp hk
    rw [readInto, if_pos (ha.head hk).1, (ha.head hk).2, BitVec.toNat_ofNat]
  have hlen : n.content.length - n.body.flatten.length = n.header.serialize.length := by
    rw [length_content, Piece.length_flatten, Nat.add_sub_cancel]
  have hmod : n.header.pieceHeaderLength.toNat = headerLengthOf n.kind := by
    rw [ha.pieceHeaderLength, BitVec.toNat_ofNat]
    cases n.kind <;> rfl
  constructor
  · intro hd
    obtain ⟨h, rest, hr⟩ := hd .new
    have he := hr.read.symm.trans (hread .new)
    obtain ⟨rfl, rfl⟩ : h = readInto .new n.header ∧ rest = n.body.flatten := by
      simpa using he
    refine ⟨(pieceLength_iff ha).mp ?_, fun {hp} hk => ?_⟩
    · rw [← hr.pieceLength, (hfield .new).1]
    · have h := hr.dataHeaderLength hk
      rw [hhead .new hk] at h
      omega
  · intro hs old
    obtain ⟨h₁, h₂, h₃, h₄⟩ := hfield old
    have ht := (idsTell_iff ha).mp hs.fits.1
    refine ⟨_, _, hread old, ?_, ?_, ?_, fun {hp} hk => ?_, rfl⟩
    · rw [h₁]
      exact ((pieceLength_iff ha).mpr hs.fits).symm
    · rw [h₂, hlen, hmod, ht]
    · rw [h₂, h₃, h₄, hmod, ← ht, length_serialize_piece]
    · rw [hhead old hk, Nat.mod_eq_of_lt (hs.head hk)]

end XH.Proof.Cutter
