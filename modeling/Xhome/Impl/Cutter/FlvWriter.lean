import Xhome.Impl.Cutter.PieceFile

/-!
# The writer of FLV files (`CFLVPieceWriter`)

Every piece file begins with the header piece of the stream, and before the
first one with `FlvHeader`. The class has no field of its own that
`CPPLBlockWriter` does not have too.
-/

namespace XH.Impl.Cutter

/-- `FlvHeader`. -/
def flvHeaderData : Buffer :=
  [0x46, 0x4c, 0x56, 0x01, 0x05, 0x00, 0x00, 0x00, 0x09, 0x00, 0x00, 0x00, 0x00, 0x12, 0x00, 0x01,
    0x0c, 0x00, 0x00, 0x00, 0x00, 0x00, 0x00, 0x00, 0x02, 0x00, 0x0a, 0x6f, 0x6e, 0x4d, 0x65, 0x74,
    0x61, 0x44, 0x61, 0x74, 0x61, 0x08, 0x00, 0x00, 0x00, 0x0c, 0x00, 0x08, 0x64, 0x75, 0x72, 0x61,
    0x74, 0x69, 0x6f, 0x6e, 0x00, 0x00, 0x00, 0x00, 0x00, 0x00, 0x00, 0x00, 0x00, 0x00, 0x05, 0x77,
    0x69, 0x64, 0x74, 0x68, 0x00, 0x40, 0x7c, 0x20, 0x00, 0x00, 0x00, 0x00, 0x00, 0x00, 0x06, 0x68,
    0x65, 0x69, 0x67, 0x68, 0x74, 0x00, 0x40, 0x76, 0x80, 0x00, 0x00, 0x00, 0x00, 0x00, 0x00, 0x0d,
    0x76, 0x69, 0x64, 0x65, 0x6f, 0x64, 0x61, 0x74, 0x61, 0x72, 0x61, 0x74, 0x65, 0x00, 0x40, 0x77,
    0x31, 0x80, 0x00, 0x00, 0x00, 0x00, 0x00, 0x09, 0x66, 0x72, 0x61, 0x6d, 0x65, 0x72, 0x61, 0x74,
    0x65, 0x00, 0x40, 0x30, 0x00, 0x00, 0x00, 0x00, 0x00, 0x00, 0x00, 0x0c, 0x76, 0x69, 0x64, 0x65,
    0x6f, 0x63, 0x6f, 0x64, 0x65, 0x63, 0x69, 0x64, 0x00, 0x40, 0x1c, 0x00, 0x00, 0x00, 0x00, 0x00,
    0x00, 0x00, 0x0d, 0x61, 0x75, 0x64, 0x69, 0x6f, 0x64, 0x61, 0x74, 0x61, 0x72, 0x61, 0x74, 0x65,
    0x00, 0x40, 0x3f, 0x40, 0x00, 0x00, 0x00, 0x00, 0x00, 0x00, 0x0f, 0x61, 0x75, 0x64, 0x69, 0x6f,
    0x73, 0x61, 0x6d, 0x70, 0x6c, 0x65, 0x72, 0x61, 0x74, 0x65, 0x00, 0x40, 0xe5, 0x88, 0x80, 0x00,
    0x00, 0x00, 0x00, 0x00, 0x0f, 0x61, 0x75, 0x64, 0x69, 0x6f, 0x73, 0x61, 0x6d, 0x70, 0x6c, 0x65,
    0x73, 0x69, 0x7a, 0x65, 0x00, 0x40, 0x30, 0x00, 0x00, 0x00, 0x00, 0x00, 0x00, 0x00, 0x06, 0x73,
    0x74, 0x65, 0x72, 0x65, 0x6f, 0x01, 0x00, 0x00, 0x0c, 0x61, 0x75, 0x64, 0x69, 0x6f, 0x63, 0x6f,
    0x64, 0x65, 0x63, 0x69, 0x64, 0x00, 0x40, 0x24, 0x00, 0x00, 0x00, 0x00, 0x00, 0x00, 0x00, 0x08,
    0x66, 0x69, 0x6c, 0x65, 0x73, 0x69, 0x7a, 0x65, 0x00, 0x00, 0x00, 0x00, 0x00, 0x00, 0x00, 0x00,
    0x00, 0x00, 0x00, 0x09, 0x00, 0x00, 0x01, 0x17, 0x08, 0x00, 0x00, 0x04, 0x00, 0x00, 0x00, 0x00,
    0x00, 0x00, 0x00, 0xaf, 0x00, 0x12, 0x08, 0x00, 0x00, 0x00, 0x0f, 0x09, 0x00, 0x00, 0x34, 0x00,
    0x00, 0x00, 0x00, 0x00, 0x00, 0x00, 0x17, 0x00, 0x00, 0x00, 0x00, 0x01, 0x64, 0x00, 0x33, 0xff,
    0xe1, 0x00, 0x1f, 0x67, 0x64, 0x00, 0x33, 0xac, 0xd9, 0x41, 0xd0, 0xbf, 0x88, 0x97, 0xff, 0x00,
    0x19, 0x00, 0x18, 0x10, 0x00, 0x00, 0x03, 0x00, 0x10, 0x00, 0x00, 0x03, 0x02, 0x08, 0xf1, 0x83,
    0x19, 0x60, 0x01, 0x00, 0x05, 0x68, 0xeb, 0xec, 0xb2, 0x2c, 0x00, 0x00, 0x00, 0x3f]

/-- What is written into a file: the header piece, the cue point and the data. -/
structure FlvNote where
  headerPiece : Piece
  cue : Piece
  data : Piece
  deriving DecidableEq

def FlvNote.content (n : FlvNote) : List Byte := (n.headerPiece ++ n.cue ++ n.data).flatten

abbrev FlvWorld := PieceWorld Unit FlvNote

/-- The bytes of a piece, as `piece_length` counts them. -/
def flvPieceLength (headerPieceLen : Nat) (cue data : Piece) : Nat :=
  u32 (headerPieceLen + Piece.size cue + Piece.size data)

/-- `CFLVPieceWriter::WriteOneSpecialPiece`; `header_piece_` is set since `Run`. -/
def flvWriteOneSpecialPiece (env : PieceEnv) (fuel specialType : Nat) : Prog FlvWorld Unit := do
  if specialType ≤ 1 then
    let cue ← onBase cuePoint
    let s ← Prog.get
    let tags := if specialType = 0 then s.base.w.offairTag.toList else []
    let note : FlvNote := ⟨s.base.w.headerPiece, cue, tags⟩
    writeSpecial env fuel flvExtension note note.content (flvPieceLength s.base.w.headerPieceLen cue tags)
  else
    pure ()

/-- The rest of `case STAT_NORMAL`. -/
def flvWritePiece (env : PieceEnv) (fuel : Nat) (piece : Piece) : Prog FlvWorld Unit := do
  let cue ← onBase cuePoint
  let s ← Prog.get
  let note : FlvNote := ⟨s.base.w.headerPiece, cue, piece⟩
  writeData env fuel flvExtension note note.content (flvPieceLength s.base.w.headerPieceLen cue piece)

/-- `case STAT_NORMAL`. -/
def flvHandleNormal (env : PieceEnv) (fuel : Nat) (piece : Piece) : Prog FlvWorld Unit := do
  if ← checkSlot env (flvWriteOneSpecialPiece env) fuel then flvWritePiece env fuel piece

/-- `CFLVPieceWriter::HandleWritePiece`. The outer `do … while (error_value)`
runs once: `error_value` is 0 whenever the inner loop ends. -/
def flvHandleWritePiece (env : PieceEnv) (fuel : Nat) (piece : Piece) (mediaTs : Nat) : Prog FlvWorld Unit := do
  onBase (baseHandleWritePiece mediaTs)
  let s ← Prog.get
  match s.base.w.stat with
  | .firstPiece => onBase (storeHeaderPiece piece)
  | .secondPiece => do
    if ← startSlots env (flvWriteOneSpecialPiece env) fuel then
      onBase (Prog.modify fun s => { s with w := { s.w with stat := .normal } })
      flvHandleNormal env fuel piece
  | .normal => flvHandleNormal env fuel piece

/-- What the writer's thread runs. -/
def flvProg (env : PieceEnv) : PieceEvent → Prog FlvWorld Unit
  | .writePiece fuel piece _ mediaTs => flvHandleWritePiece env fuel piece mediaTs
  | .readerError fuel => pieceReaderError env (flvWriteOneSpecialPiece env) fuel
  | .alarm fuel => pieceClockAlarm env (flvWriteOneSpecialPiece env) fuel

/-! ## `Run` -/

/-- `CFLVPieceWriter(path, …)` and `SetCheckpointScale(piece_scale)`, on the
given disk. -/
def flvConstruct (u : Uninit) (dir : Path) (guid : Name) (pieceScale pieceLifeSpan statusReportPeriod : Nat)
    (disk : Tree) : FlvWorld where
  base := constructPieceWriter u dir guid pieceScale pieceLifeSpan statusReportPeriod disk
  own := ()
  placed := []
  pushed := []

/-- `Remove xxx.flv.tmp`, each in a `try` block of its own. -/
def removeEachTmp (env : Env) (dir : Path) : List Name → Prog World Unit
  | [] => pure ()
  | n :: ns => do
    if extension n = tmpExtension then
      let _ ← tryRemove env (dir ++ [n])
    removeEachTmp env dir ns

/-- `Remove xxx.flv.tmp` and `Scan pieces from disk.` -/
def flvScan (env : Env) (dir : Path) : Prog World Unit := do
  let s ← Prog.get
  removeEachTmp env dir ((s.fs.disk.filesIn dir).map (·.1))
  Prog.modify fun s =>
    { s with fs := { s.fs with pieceFileQueue := (scanFiles s.fs.disk dir flvExtension).map (·.2) } }

/-- `CFLVPieceWriter::Run` up to its `io_service`. Without the channel directory
the scan throws, and nothing catches it. -/
def flvRun (env : PieceEnv) : Prog FlvWorld Unit := do
  let nowId ← onBase (getUTC env.toEnv)
  onBase (loadSpecialTags env.toEnv)
  onBase (Prog.modify fun s =>
    { s with w := { s.w with headerPiece := [flvHeaderData], headerPieceLen := flvHeaderData.length } })
  let s ← Prog.get
  let dir := s.base.fs.filePath
  if dir ∈ s.base.fs.disk.dirs then
    onBase (flvScan env.toEnv dir)
    onBase (resumeSlots env.toEnv nowId)
  else
    Prog.undefined

end XH.Impl.Cutter
