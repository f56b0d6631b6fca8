import Xhome.Impl.Cutter.PieceFile

/-!
# The piece writer of PPL files (`CPPLPieceWriter`, `PIECE_HEADER`)

`PIECE_HEADER` with its `serialize` used for writing and for reading, and
`CPPLPieceWriter`: head pieces, data pieces, special pieces, its clock alarm
and `Run`.
-/

namespace XH.Impl.Cutter

def pieceHeaderTSize : Nat := 24
def pieceDataHeaderTSize : Nat := 6

/-! ## `PIECE_HEADER` -/

structure PieceHeader where
  pieceLength : BitVec 32
  checkSum : BitVec 32
  version : BitVec 8
  pieceHeaderLength : BitVec 16
  pieceId : BitVec 32
  dataHeaderPieceId : BitVec 32
  dataHeaderLength : BitVec 16
  dataHeaderCheckSum : BitVec 32
  hasSeekPoint : BitVec 8
  seekPoint : BitVec 32
  deriving DecidableEq

/-- `PIECE_HEADER()`. -/
def PieceHeader.new : PieceHeader := ⟨0, 0, 1, 0, 0, 0, 0, 0, 0, 0⟩

/-- A 16-bit value as the archive writes it. -/
def le16 (n : Nat) : List Byte := [BitVec.ofNat 8 n, BitVec.ofNat 8 (n / 2 ^ 8)]

/-- `PIECE_HEADER::serialize` with an archive for writing. -/
def PieceHeader.serialize (h : PieceHeader) : List Byte :=
  le32 h.pieceLength.toNat ++ le32 h.checkSum.toNat ++ [h.version] ++ le16 h.pieceHeaderLength.toNat ++
    le32 h.pieceId.toNat ++ le32 h.dataHeaderPieceId.toNat ++
    (if h.pieceId = h.dataHeaderPieceId then le16 h.dataHeaderLength.toNat ++ le32 h.dataHeaderCheckSum.toNat else []) ++
    [h.hasSeekPoint] ++ le32 h.seekPoint.toNat

/-- The value of bytes, least significant byte first. -/
def ofLe : List Byte → Nat
  | [] => 0
  | b :: bs => b.toNat + 2 ^ 8 * ofLe bs

/-- A value of `n` bytes read from an archive, and the bytes behind it. -/
def readLe (n w : Nat) (bytes : List Byte) : Option (BitVec w × List Byte) :=
  if n ≤ bytes.length then some (BitVec.ofNat w (ofLe (bytes.take n)), bytes.drop n) else none

/-- `PIECE_HEADER::serialize` with an archive for reading, into the object `h`. -/
def PieceHeader.deserialize (h : PieceHeader) (bytes : List Byte) : Option (PieceHeader × List Byte) := do
  let (pieceLength, bytes) ← readLe 4 32 bytes
  let (checkSum, bytes) ← readLe 4 32 bytes
  let (version, bytes) ← readLe 1 8 bytes
  let (pieceHeaderLength, bytes) ← readLe 2 16 bytes
  let (pieceId, bytes) ← readLe 4 32 bytes
  let (dataHeaderPieceId, bytes) ← readLe 4 32 bytes
  let (dataHeaderLength, dataHeaderCheckSum, bytes) ←
    if pieceId = dataHeaderPieceId then do
      let (dataHeaderLength, bytes) ← readLe 2 16 bytes
      let (dataHeaderCheckSum, bytes) ← readLe 4 32 bytes
      pure (dataHeaderLength, dataHeaderCheckSum, bytes)
    else
      pure (h.dataHeaderLength, h.dataHeaderCheckSum, bytes)
  let (hasSeekPoint, bytes) ← readLe 1 8 bytes
  let (seekPoint, bytes) ← readLe 4 32 bytes
  pure (⟨pieceLength, checkSum, version, pieceHeaderLength, pieceId, dataHeaderPieceId, dataHeaderLength,
    dataHeaderCheckSum, hasSeekPoint, seekPoint⟩, bytes)

/-- `Calc Piece header values.`: what the three routines assign. -/
def PieceHeader.assign (h : PieceHeader) (headerLength pieceLength id headerId : Nat) (hasSeekPoint : Bool)
    (seekPoint : Nat) : PieceHeader :=
  { h with
    pieceLength := .ofNat 32 pieceLength
    pieceHeaderLength := .ofNat 16 headerLength
    pieceId := .ofNat 32 id
    dataHeaderPieceId := .ofNat 32 headerId
    checkSum := 0
    hasSeekPoint := if hasSeekPoint then 1 else 0
    seekPoint := .ofNat 32 seekPoint }

/-! ## The writer -/

/-- The fields of `CPPLPieceWriter`. -/
structure PplFields where
  pieceHeader : PieceHeader
  headerPieceId : Nat
  headPieceFileQueue : List PieceFileInfo
  headPieceLifeSpan : Nat
  lastSeekPointPieceId : Nat

/-- The routine a piece was written by: a head piece with the data header, a
data piece with its posted offset, or a special piece. -/
inductive PplKind where
  | head (headerPiece : Piece)
  | data (seekPointPos : Nat)
  | special (specialType : Nat)
  deriving DecidableEq

/-- What is written into a piece file: `piece_header_`, the cue point and the
data. -/
structure PplNote where
  kind : PplKind
  header : PieceHeader
  cue : Piece
  data : Piece
  deriving DecidableEq

/-- The data header in front of the cue point. -/
def PplNote.headerPiece (n : PplNote) : Piece :=
  match n.kind with
  | .head headerPiece => headerPiece
  | _ => []

def PplNote.body (n : PplNote) : Piece := n.headerPiece ++ n.cue ++ n.data

def PplNote.content (n : PplNote) : List Byte := n.header.serialize ++ n.body.flatten

abbrev PplWorld := PieceWorld PplFields PplNote

/-- The values of `piece_header_` and `last_seek_point_piece_id_` before a piece
is written. -/
def setPieceHeader (h : PieceHeader) (lastSeekPointPieceId : Nat) : Prog PplWorld Unit :=
  Prog.modify fun s =>
    { s with own := { s.own with pieceHeader := h, lastSeekPointPieceId } }

/-- The bytes of a piece with the cue point, as `PIECE_LENGTH` counts them. -/
def countPiece (headerLength : Nat) (data cue : Piece) : Nat :=
  u32 (headerLength + u32 (Piece.size data) + Piece.size cue)

/-- `CPPLPieceWriter::WriteOneSpecialPiece`. -/
def pplWriteOneSpecialPiece (env : PieceEnv) (fuel specialType : Nat) : Prog PplWorld Unit := do
  if specialType ≤ 1 then
    let cue ← onBase cuePoint
    let s ← Prog.get
    let tags := if specialType = 0 then s.base.w.offairTag.toList else []
    let h := s.own.pieceHeader.assign pieceHeaderTSize (countPiece pieceHeaderTSize tags cue)
      s.base.w.currentPieceId s.own.headerPieceId true 0
    setPieceHeader h s.base.w.currentPieceId
    let note : PplNote := ⟨.special specialType, h, cue, tags⟩
    writeSpecial env fuel pieceExtension note note.content h.pieceLength.toNat
  else
    pure ()

/-- The rest of `case STAT_SECOND_PIECE`: the head piece. -/
def writeHeadPiece (env : PieceEnv) (fuel : Nat) (piece : Piece) (seekPointPos : Nat) : Prog PplWorld Unit := do
  let cue ← onBase cuePoint
  let s ← Prog.get
  let id := s.base.w.currentPieceId
  let headerPiece := s.base.w.headerPiece
  let dataHeaderLength := BitVec.ofNat 16 (u32 (Piece.size headerPiece))
  let pieceLength := u32 (Piece.size (headerPiece ++ piece))
  let seekPoint :=
    if seekPointPos < sub32 pieceLength dataHeaderLength.toNat then u32 (seekPointPos + Piece.size cue) else 0
  let h := { s.own.pieceHeader with dataHeaderLength }.assign (pieceHeaderTSize + pieceDataHeaderTSize)
    (countPiece (pieceHeaderTSize + pieceDataHeaderTSize) (headerPiece ++ piece) cue) id id true seekPoint
  Prog.modify fun s => { s with own := { s.own with headerPieceId := id } }
  setPieceHeader h id
  let note : PplNote := ⟨.head headerPiece, h, cue, piece⟩
  retryLoop env false (attemptHead env note note.content) h.pieceLength.toNat fuel 0 0
  Prog.modify fun s =>
    let entry : PieceFileInfo :=
      ⟨s.base.w.currentPieceId, appendExtension s.base.fs.filePath headExtension, h.pieceLength.toNat⟩
    { s with
      own := { s.own with headPieceFileQueue := s.own.headPieceFileQueue ++ [entry] }
      base := { s.base with
        fs := { s.base.fs with filePath := s.base.fs.filePath.dropLast }
        w := { s.base.w with
          currentPieceId := u32 (s.base.w.currentPieceId + s.base.w.pieceScale), stat := .normal } }
      pushed := s.pushed ++ [entry] }

/-- `(int)seek_point_pos < (int)(piece_length - piece_header_.DATA_HEADER_LENGTH)`. -/
def seekPointInPiece (seekPointPos pieceLength dataHeaderLength : Nat) : Bool :=
  decide (i32 seekPointPos < i32 (sub32 pieceLength dataHeaderLength))

/-- The rest of `case STAT_NORMAL`: a data piece. -/
def writeDataPiece (env : PieceEnv) (fuel : Nat) (piece : Piece) (seekPointPos : Nat) : Prog PplWorld Unit := do
  let cue ← onBase cuePoint
  let s ← Prog.get
  let id := s.base.w.currentPieceId
  let hasSeekPoint :=
    seekPointInPiece seekPointPos (u32 (Piece.size piece)) s.own.pieceHeader.dataHeaderLength.toNat
  let h := s.own.pieceHeader.assign pieceHeaderTSize (countPiece pieceHeaderTSize piece cue) id
    s.own.headerPieceId hasSeekPoint
    (if hasSeekPoint then u32 (seekPointPos + Piece.size cue) else s.own.lastSeekPointPieceId)
  setPieceHeader h (if hasSeekPoint then id else s.own.lastSeekPointPieceId)
  let note : PplNote := ⟨.data seekPointPos, h, cue, piece⟩
  writeData env fuel pieceExtension note note.content h.pieceLength.toNat

/-- `CPPLPieceWriter::HandleWritePiece`. The outer `do … while (error_value)`
runs once: `error_value` is 0 whenever the inner loop ends. -/
def pplHandleWritePiece (env : PieceEnv) (fuel : Nat) (piece : Piece) (seekPointPos mediaTs : Nat) :
    Prog PplWorld Unit := do
  onBase (baseHandleWritePiece mediaTs)
  let s ← Prog.get
  match s.base.w.stat with
  | .firstPiece =>
    onBase (Prog.modify fun s => { s with w := { s.w with headerPiece := piece, stat := .secondPiece } })
  | .secondPiece => do
    if ← startSlots env (pplWriteOneSpecialPiece env) fuel then writeHeadPiece env fuel piece seekPointPos
  | .normal => do
    if ← checkSlot env (pplWriteOneSpecialPiece env) fuel then writeDataPiece env fuel piece seekPointPos

/-- `Remove head piece.`: the expired heads with their copies. If the head
cannot be removed, its copy stays. -/
def dropHeads (env : Env) (old : PieceFileInfo → Bool) : List PieceFileInfo → Prog PplWorld Unit
  | [] => pure ()
  | f :: rest =>
    if old f then do
      if ← onBase (tryRemove env f.path) then
        let _ ← onBase (tryRemove env (replaceExtension f.path []))
      Prog.modify fun s => { s with own := { s.own with headPieceFileQueue := rest } }
      dropHeads env old rest
    else
      pure ()

def removeHeads (env : Env) (nowId : Nat) : Prog PplWorld Unit := do
  let s ← Prog.get
  dropHeads env (expired nowId s.base.w.pieceScale s.own.headPieceLifeSpan) s.own.headPieceFileQueue

/-- `CPPLPieceWriter::OnClockAlarm`. -/
def pplOnClockAlarm (env : PieceEnv) (fuel : Nat) : Prog PplWorld Unit := do
  pieceClockAlarm env (pplWriteOneSpecialPiece env) fuel
  let nowId ← onBase (getUTC env.toEnv)
  removeHeads env.toEnv nowId

/-- What the writer's thread runs. -/
def pplProg (env : PieceEnv) : PieceEvent → Prog PplWorld Unit
  | .writePiece fuel piece seekPointPos mediaTs => pplHandleWritePiece env fuel piece seekPointPos mediaTs
  | .readerError fuel => pieceReaderError env (pplWriteOneSpecialPiece env) fuel
  | .alarm fuel => pplOnClockAlarm env fuel

/-! ## `Run` -/

/-- `CPPLPieceWriter(path, …)` on the given disk; `last_seek_point_piece_id_` is
not initialised. -/
def pplConstruct (u : Uninit) (lastSeekPointPieceId : Nat) (dir : Path) (guid : Name)
    (pieceScale pieceLifeSpan headPieceLifeSpan statusReportPeriod : Nat) (disk : Tree) : PplWorld where
  base :=
    let s := constructPieceWriter u dir guid pieceScale pieceLifeSpan statusReportPeriod disk
    { s with w := { s.w with checkpointScale := 60 } }
  own := {
    pieceHeader := .new, headerPieceId := 0, headPieceFileQueue := [], headPieceLifeSpan, lastSeekPointPieceId }
  placed := []
  pushed := []

/-- `Scan head piece from disk.`: the heads are copied again. -/
def copyHeads (env : PieceEnv) (dir : Path) : List (Name × List Byte) → Prog PplWorld Unit
  | [] => pure ()
  | f :: rest => do
    if extension f.1 = headExtension ∧ u32OfInt (atoi (stem f.1)) ≠ 0 ∧ f.2.length ≠ 0 then
      let fault ← onBase (nextFault env)
      let _ ← copyIntoPlace (dir ++ [f.1]) (replaceExtension (dir ++ [f.1]) []) fault.2
    copyHeads env dir rest

/-- The scan of the head pieces, and the id of the last one. -/
def loadHeads (env : PieceEnv) (nowId : Nat) (dir : Path) : Prog PplWorld Unit := do
  let s ← Prog.get
  let heads := (scanFiles s.base.fs.disk dir headExtension).map (·.2)
  copyHeads env dir (s.base.fs.disk.filesIn dir)
  Prog.modify fun s => { s with own := { s.own with headPieceFileQueue := heads } }
  removeHeads env.toEnv nowId
  Prog.modify fun s =>
    match s.own.headPieceFileQueue.getLast? with
    | some f => { s with own := { s.own with headerPieceId := f.id } }
    | none => s

/-- `while (current_piece_id_ > 0 && (int)(now_id - current_piece_id_) > 0)`. -/
def addAbsent (env : PieceEnv) (nowId : Nat) : Nat → Prog PplWorld Unit
  | 0 => Prog.running
  | n + 1 => do
    let s ← Prog.get
    if s.base.w.currentPieceId > 0 ∧ i32 (sub32 nowId s.base.w.currentPieceId) > 0 then
      pplWriteOneSpecialPiece env (n + 1) 0
      addAbsent env nowId n
    else
      pure ()

/-- `Remove xxx.piece.tmp` and `Scan pieces from disk.`, in one `try` block. -/
def pplScan (env : Env) (dir : Path) : Prog World Unit := do
  let s ← Prog.get
  let ok ← removeTmps env dir ((s.fs.disk.filesIn dir).map (·.1))
  Prog.modify fun s =>
    { s with fs := { s.fs with
        pieceFileQueue := if ok then (scanFiles s.fs.disk dir pieceExtension).map (·.2) else [] } }

/-- `CPPLPieceWriter::Run` up to its `io_service`. Without the channel directory
the second scan throws, and nothing catches it. -/
def pplRun (env : PieceEnv) (fuel : Nat) : Prog PplWorld Unit := do
  let nowId ← onBase (getUTC env.toEnv)
  onBase (loadSpecialTags env.toEnv)
  let s ← Prog.get
  let dir := s.base.fs.filePath
  if dir ∈ s.base.fs.disk.dirs then
    onBase (pplScan env.toEnv dir)
    onBase (resumeSlots env.toEnv nowId)
    loadHeads env nowId dir
    addAbsent env nowId fuel
  else
    Prog.undefined

end XH.Impl.Cutter
