import Xhome.Proof.Cutter.PieceHeader
import Xhome.Proof.Cutter.PieceRules

/-!
# The three kinds of PPL pieces

`WriteOneSpecialPiece`, the head piece of `STAT_SECOND_PIECE` and the data piece
of `STAT_NORMAL` as the loop around the attempts from the state in which the
header is complete (`pplSpecialStart`, `pplHeadStart`, `pplDataStart`), with what
they write (`pplSpecialNote`, `pplHeadNote`, `pplDataNote`). The values they
assign are those of `Assigned`.
-/

namespace XH.Proof.Cutter

open XH.Impl.Cutter

/-- The cue point and the header are ready. -/
def headerReady (h : PieceHeader) (headerId lastSeek : Nat) (s : PplWorld) : PplWorld :=
  { s with
    base := cued s.base
    own := { s.own with pieceHeader := h, headerPieceId := headerId, lastSeekPointPieceId := lastSeek } }

/-! ## Special pieces -/

def pplSpecialNote (ty : Nat) (s : PplWorld) : PplNote where
  kind := .special ty
  header := s.own.pieceHeader.assign pieceHeaderTSize
    (countPiece pieceHeaderTSize (offairOf s.base.w ty) (cueOf s.base.w)) s.base.w.currentPieceId s.own.headerPieceId true 0
  cue := cueOf s.base.w
  data := offairOf s.base.w ty

def pplSpecialStart (ty : Nat) (s : PplWorld) : PplWorld :=
  headerReady (pplSpecialNote ty s).header s.own.headerPieceId s.base.w.currentPieceId s

theorem pplWriteOneSpecialPiece_eq (env : PieceEnv) (fuel : Nat) {ty : Nat} (h : ty ≤ 1) (s : PplWorld) :
    pplWriteOneSpecialPiece env fuel ty s =
      writeSpecial env fuel pieceExtension (pplSpecialNote ty s) (pplSpecialNote ty s).content
        (pplSpecialNote ty s).header.pieceLength.toNat (pplSpecialStart ty s) := by
  rw [pplWriteOneSpecialPiece, if_pos h, Prog.bind_ret (onBase_ret (cuePoint_apply s.base)),
    Prog.bind_ret (Prog.get_apply _)]
  rfl

theorem pplSpecial_stat (env : PieceEnv) (n ty : Nat) (s : PplWorld) :
    WP (pplWriteOneSpecialPiece env n ty) s (fun _ t => t.base.w.stat = s.base.w.stat) fun _ => True := by
  by_cases h : ty ≤ 1
  · unfold WP
    rw [pplWriteOneSpecialPiece_eq env n h s]
    exact (writeSpecial_w env (.inl rfl) _ _ _ n _).mono (fun _ t ht => by rw [ht.1]; rfl) fun _ h => h
  · rw [pplWriteOneSpecialPiece, if_neg h]
    exact .pure rfl

/-! ## Head pieces -/

def pplHeadNote (piece : Piece) (seek : Nat) (s : PplWorld) : PplNote where
  kind := .head s.base.w.headerPiece
  header :=
    let dataHeaderLength := BitVec.ofNat 16 (u32 (Piece.size s.base.w.headerPiece))
    let seekPoint :=
      if seek < sub32 (u32 (Piece.size (s.base.w.headerPiece ++ piece))) dataHeaderLength.toNat then
        u32 (seek + Piece.size (cueOf s.base.w)) else 0
    { s.own.pieceHeader with dataHeaderLength }.assign (pieceHeaderTSize + pieceDataHeaderTSize)
      (countPiece (pieceHeaderTSize + pieceDataHeaderTSize) (s.base.w.headerPiece ++ piece) (cueOf s.base.w))
      s.base.w.currentPieceId s.base.w.currentPieceId true seekPoint
  cue := cueOf s.base.w
  data := piece

def pplHeadStart (piece : Piece) (seek : Nat) (s : PplWorld) : PplWorld :=
  headerReady (pplHeadNote piece seek s).header s.base.w.currentPieceId s.base.w.currentPieceId s

/-- The entry of a head piece, and the step to the next slot. -/
def headPushed (len : Nat) (s : PplWorld) : PplWorld :=
  let entry : PieceFileInfo := ⟨s.base.w.currentPieceId, appendExtension s.base.fs.filePath headExtension, len⟩
  { s with
    own := { s.own with headPieceFileQueue := s.own.headPieceFileQueue ++ [entry] }
    base := { s.base with
      fs := { s.base.fs with filePath := s.base.fs.filePath.dropLast }
      w := { s.base.w with currentPieceId := u32 (s.base.w.currentPieceId + s.base.w.pieceScale), stat := .normal } }
    pushed := s.pushed ++ [entry] }

theorem writeHeadPiece_eq (env : PieceEnv) (fuel : Nat) (piece : Piece) (seek : Nat) (s : PplWorld) :
    writeHeadPiece env fuel piece seek s =
      (do
        retryLoop env false (attemptHead env (pplHeadNote piece seek s) (pplHeadNote piece seek s).content)
          (pplHeadNote piece seek s).header.pieceLength.toNat fuel 0 0
        Prog.modify (headPushed (pplHeadNote piece seek s).header.pieceLength.toNat))
        (pplHeadStart piece seek s) := by
  rw [writeHeadPiece, Prog.bind_ret (onBase_ret (cuePoint_apply s.base)), Prog.bind_ret (Prog.get_apply _)]
  rfl

/-! ## Data pieces -/

def pplDataNote (piece : Piece) (seek : Nat) (s : PplWorld) : PplNote where
  kind := .data seek
  header :=
    let hasSeekPoint := seekPointInPiece seek (u32 (Piece.size piece)) s.own.pieceHeader.dataHeaderLength.toNat
    s.own.pieceHeader.assign pieceHeaderTSize (countPiece pieceHeaderTSize piece (cueOf s.base.w))
      s.base.w.currentPieceId s.own.headerPieceId hasSeekPoint
      (if hasSeekPoint then u32 (seek + Piece.size (cueOf s.base.w)) else s.own.lastSeekPointPieceId)
  cue := cueOf s.base.w
  data := piece

def pplDataStart (piece : Piece) (seek : Nat) (s : PplWorld) : PplWorld :=
  headerReady (pplDataNote piece seek s).header s.own.headerPieceId
    (if seekPointInPiece seek (u32 (Piece.size piece)) s.own.pieceHeader.dataHeaderLength.toNat then
      s.base.w.currentPieceId else s.own.lastSeekPointPieceId) s

theorem writeDataPiece_eq (env : PieceEnv) (fuel : Nat) (piece : Piece) (seek : Nat) (s : PplWorld) :
    writeDataPiece env fuel piece seek s =
      writeData env fuel pieceExtension (pplDataNote piece seek s) (pplDataNote piece seek s).content
        (pplDataNote piece seek s).header.pieceLength.toNat (pplDataStart piece seek s) := by
  rw [writeDataPiece, Prog.bind_ret (onBase_ret (cuePoint_apply s.base)), Prog.bind_ret (Prog.get_apply _)]
  rfl

/-! ## Their headers -/

theorem countPiece_eq (headerLength : Nat) (data cue : Piece) :
    BitVec.ofNat 32 (countPiece headerLength data cue) =
      .ofNat 32 (headerLength + (Piece.size data + Piece.size cue)) := by
  apply BitVec.eq_of_toNat_eq
  simp only [BitVec.toNat_ofNat, countPiece, u32]
  omega

theorem assigned_special (ty : Nat) (s : PplWorld) : Assigned (pplSpecialNote ty s) := by
  refine ⟨(countPiece_eq _ _ _).trans ?_, rfl, nofun⟩
  rw [PplNote.body, Piece.size_append, Piece.size_append, Nat.add_comm (Piece.size (offairOf s.base.w ty)), ← Nat.zero_add
    (Piece.size (cueOf s.base.w))]
  rfl

theorem assigned_data (piece : Piece) (seek : Nat) (s : PplWorld) : Assigned (pplDataNote piece seek s) := by
  refine ⟨(countPiece_eq _ _ _).trans ?_, rfl, nofun⟩
  rw [PplNote.body, Piece.size_append, Piece.size_append, Nat.add_comm (Piece.size piece), ← Nat.zero_add
    (Piece.size (cueOf s.base.w))]
  rfl

theorem assigned_head (piece : Piece) (seek : Nat) (s : PplWorld) : Assigned (pplHeadNote piece seek s) := by
  refine ⟨(countPiece_eq _ _ _).trans ?_, rfl, fun {hp} hk => ⟨rfl, ?_⟩⟩
  · rw [PplNote.body, Piece.size_append, Piece.size_append, Piece.size_append,
      Nat.add_right_comm (Piece.size s.base.w.headerPiece)]
    rfl
  · cases hk
    apply BitVec.eq_of_toNat_eq
    show (BitVec.ofNat 16 (u32 _)).toNat = _
    simp only [BitVec.toNat_ofNat, u32]
    omega

end XH.Proof.Cutter
