import Xhome.Impl.Cutter.Handlers

/-!
# The block writer: construction and `Init`

The constructors of `CPieceWriter` and `CPPLBlockWriter`, and
`CPPLBlockWriter::Init` with `GetLastTsInPiece`: the newest directory with
blocks of the channel is scanned, expired blocks are removed, and the slots
from the last block to the present are filled.
-/

namespace XH.Impl.Cutter

/-! ## `GetLastTsInPiece` -/

/-- `piece.seekg(pos); piece.read(mem, mem.length)`: the memory afterwards and
whether the stream has failed. A failed stream changes nothing. -/
def readAt (content : List Byte) (fail : Bool) (pos : Nat) (mem : Buffer) : Buffer × Bool :=
  if fail then (mem, true)
  else
    let got := (content.drop pos).take mem.length
    (got ++ mem.drop got.length, decide (got.length < mem.length))

/-- `while (ts == 0 && tag_size_pos > 1400)`, with the memory of `tag_size` and
`tag_header`. -/
def lastTsLoop (content : List Byte) : Nat → Nat → Nat → Buffer → Bool → Buffer → Nat
  | 0, ts, _, _, _, _ => ts
  | n + 1, ts, tagSizePos, tagSizeMem, fail, tagHeader =>
    if ts = 0 ∧ tagSizePos > 1400 then
      let (mem, fail) := readAt content fail tagSizePos tagSizeMem
      let tagSize := flvUI32 mem 0
      if tagSize = 0 then ts
      else
        let tagHeaderPos := sub32 tagSizePos tagSize
        if tagHeaderPos < 1413 then ts
        else
          let (tagHeader, fail) := readAt content fail tagHeaderPos tagHeader
          lastTsLoop content n (getTagTs tagHeader) (sub32 tagHeaderPos 4) (le32 tagSize) fail tagHeader
    else ts

/-- `GetLastTsInPiece` of a file with the given content. -/
def getLastTsInPiece (content : List Byte) : Nat :=
  lastTsLoop content (content.length + 1) 0 (sub32 content.length 4) (List.replicate 4 0) false
    (List.replicate flvTagheaderTSize 0)

/-! ## Construction -/

/-- The members the constructors leave uninitialised. -/
structure Uninit where
  hashValue : Vector Byte 16
  rid : Vector Byte 16
  checksumList : Vector (BitVec 32) 338

/-- `CPieceWriter(path, piece_scale, …)` and `SetCheckpointScale(piece_scale)`, on the
given disk; `path` is `dir / guid`. -/
def constructPieceWriter (u : Uninit) (dir : Path) (guid : Name) (pieceScale pieceLifeSpan statusReportPeriod : Nat)
    (disk : Tree) : World where
  w := {
    guidStr := guid, dirPath := [], pieceScale, checkpointScale := pieceScale, pieceLifeSpan
    statusReportPeriod, headerPiece := [], headerPieceLen := 0, currentPieceId := 0
    stat := .firstPiece, readerOk := false, writingPieceNum := 0, offairTag := none
    checkpointTag := none, curMediaTs := 0, reportAlarm := 5
    blockHeader := ⟨u.hashValue, u.rid, 0, 0, 0, 1, u.checksumList⟩ }
  fs := {
    filePath := dir ++ [guid], dirQueue := [], pieceFileQueue := [], disk, history := [disk]
    written := [], attempts := 0, removes := 0 }
  reads := 0
  reports := []

/-- The `piece_life_span_` of a `CPPLBlockWriter`, the time of two directories at least. -/
def blockLifeSpan (pieceLifeSpan : Nat) : Nat := max (2 * dirScale) pieceLifeSpan

/-- `CPPLBlockWriter(path, piece_scale, …)` -/
def construct (u : Uninit) (dir : Path) (guid : Name) (pieceScale pieceLifeSpan statusReportPeriod : Nat)
    (disk : Tree) : World :=
  constructPieceWriter u dir guid pieceScale (blockLifeSpan pieceLifeSpan) statusReportPeriod disk

/-! ## `Init` -/

/-- `Load special-tags.` and the header of an empty stream. -/
def loadTags (env : Env) : Prog World Unit :=
  Prog.modify fun s =>
    { s with w := { s.w with
        offairTag := some (env.onairTag.getD offairTagData)
        checkpointTag := some checkPointTagData
        headerPiece := [flvHeader]
        headerPieceLen := flvFileheaderTSize } }

/-- `Scan dirs.`: the directories that hold the channel, by their number. -/
def scanDirs (disk : Tree) (dirPath : Path) (guid : Name) : List (Nat × DirInfo) :=
  mapOfList ((disk.subdirs dirPath).filterMap fun n =>
    let id := u32OfInt (atoi (stem n))
    if id ≠ 0 ∧ disk.has (dirPath ++ [n, guid]) then some (id, ⟨id, dirPath ++ [n, guid]⟩) else none)

/-- `Remove xxx.flv.tmp`; whether no removal threw. -/
def removeTmps (env : Env) (dir : Path) : List Name → Prog World Bool
  | [] => pure true
  | n :: ns => do
    if extension n = tmpExtension then
      if ← tryRemove env (dir ++ [n]) then removeTmps env dir ns else pure false
    else removeTmps env dir ns

/-- `Scan pieces from disk.` -/
def scanPieces (disk : Tree) (dir : Path) : List (Nat × PieceFileInfo) :=
  mapOfList ((disk.filesIn dir).filterMap fun f =>
    let id := u32OfInt (atoi (stem f.1))
    if extension f.1 = blockExtension ∧ id ≠ 0 ∧ f.2.length ≠ 0 then
      some (id, ⟨id, dir ++ [f.1], f.2.length⟩) else none)

/-- The scan of the newest directory `dir`, up to `Remove piece.` -/
def loadPieces (env : Env) (nowId : Nat) (dir : Path) : Prog World Unit := do
  let s ← Prog.get
  let ok ← removeTmps env dir ((s.fs.disk.filesIn dir).map (·.1))
  Prog.modify fun s =>
    { s with fs := { s.fs with
        pieceFileQueue := if ok then (scanPieces s.fs.disk dir).map (·.2) else [] } }
  let s ← Prog.get
  dropExpired env (fun f => i32 (sub32 nowId f.id) - i32 s.w.pieceScale > i32 s.w.pieceLifeSpan)
    s.fs.pieceFileQueue

/-- The id after the last block, and the media time recovered from it. -/
def resumePieces (mediaTs : Nat) : Prog World Nat := do
  let s ← Prog.get
  match s.fs.pieceFileQueue.getLast? with
  | some f =>
    let id := u32 (f.id + s.w.pieceScale)
    let ts := match s.fs.disk.read f.path with
      | some content => getLastTsInPiece content
      | none => 0
    Prog.modify fun s =>
      { s with w := { s.w with
          currentPieceId := id / s.w.pieceScale * s.w.pieceScale, curMediaTs := ts } }
    pure ts
  | none => pure mediaTs

/-- `CPPLBlockWriter::Init`; the result is `media_ts`. -/
def init (env : Env) (fuel mediaTs : Nat) : Prog World Nat := do
  let nowId ← getUTC env
  loadTags env
  Prog.modify fun s =>
    { s with w := { s.w with dirPath := s.fs.filePath.dropLast }, fs := { s.fs with filePath := [] } }
  Prog.modify fun s =>
    { s with fs := { s.fs with
        dirQueue := (scanDirs s.fs.disk s.w.dirPath s.w.guidStr).map (·.2) } }
  let s ← Prog.get
  let mediaTs ← match s.fs.dirQueue.getLast? with
    | some d => do
      Prog.modify fun s => { s with fs := { s.fs with filePath := d.path } }
      loadPieces env nowId d.path
      resumePieces mediaTs
    | none => pure mediaTs
  fillLoop env nowId fuel
  pure mediaTs

/-- The writer after its construction and `Init`. -/
def start (env : Env) (fuel : Nat) (u : Uninit) (dir : Path) (guid : Name)
    (pieceScale pieceLifeSpan statusReportPeriod : Nat) (disk : Tree) : Res World Nat :=
  init env fuel 0 (construct u dir guid pieceScale pieceLifeSpan statusReportPeriod disk)

end XH.Impl.Cutter
