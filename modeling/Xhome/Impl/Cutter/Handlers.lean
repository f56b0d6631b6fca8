import Xhome.Framework.SortedMap
import Xhome.Impl.Cutter.Writer

/-!
# The block writer: the handlers

The functions the writer's `io_service` runs one after the other:
`HandleWritePiece`, `HandleReaderError`, `HandleUpdateHeader` and the clock
alarm. Loops take the number of rounds they may use (`fuel`).
-/

namespace XH.Impl.Cutter

/-- `ReportReaderStatus`. -/
def reportReaderStatus (status : Bool) : Prog World Unit :=
  Prog.modify fun s =>
    { s with reports := s.reports ++ [status], w := { s.w with reportAlarm := i32 s.w.statusReportPeriod } }

/-! ## Filling with special pieces -/

/-- `while ((int)(GetUTC() - current_piece_id_) / (int)piece_scale_ > 0)` of
`HandleWritePiece`: the clock is read in every round. -/
def padLoop (env : Env) (specialType : Nat) : Nat → Prog World Unit
  | 0 => Prog.running
  | n + 1 => do
    let now ← getUTC env
    let s ← Prog.get
    if s.w.slotsBehind now > 0 then
      writeOneSpecialPiece env (n + 1) specialType
      padLoop env specialType n
    else
      pure ()

/-- `while (current_piece_id_ != 0 && (int)(now_id - current_piece_id_) / (int)piece_scale_ > 0)`
of `Init`, `HandleReaderError` and `OnClockAlarm`: `now_id` was read before. -/
def fillLoop (env : Env) (nowId : Nat) : Nat → Prog World Unit
  | 0 => Prog.running
  | n + 1 => do
    let s ← Prog.get
    if s.w.currentPieceId ≠ 0 ∧ s.w.slotsBehind nowId > 0 then
      writeOneSpecialPiece env (n + 1) 0
      fillLoop env nowId n
    else
      pure ()

/-! ## `HandleWritePiece` -/

/-- `CPieceWriter::HandleWritePiece`. -/
def baseHandleWritePiece (mediaTs : Nat) : Prog World Unit := do
  let s ← Prog.get
  if !s.w.readerOk then
    reportReaderStatus true
    Prog.modify fun s => { s with w := { s.w with readerOk := true } }
  Prog.modify fun s => { s with w := { s.w with writingPieceNum := s.w.writingPieceNum - 1 } }
  if s.w.stat = .normal then
    Prog.modify fun s => { s with w := { s.w with curMediaTs := mediaTs } }

/-- `case STAT_FIRST_PIECE`. -/
def storeHeaderPiece (piece : Piece) : Prog World Unit :=
  Prog.modify fun s =>
    { s with w := { s.w with
        headerPiece := piece, headerPieceLen := u32 (Piece.size piece), stat := .secondPiece } }

/-- `case STAT_SECOND_PIECE`; whether control goes on to `STAT_NORMAL`. -/
def startPieces (env : Env) (fuel : Nat) : Prog World Bool := do
  let now ← getUTC env
  let s ← Prog.get
  if s.w.currentPieceId > now then
    pure false
  else
    if s.w.currentPieceId > 0 then
      padLoop env 0 fuel
    else
      let now ← getUTC env
      Prog.modify fun s =>
        { s with w := { s.w with currentPieceId := now / s.w.pieceScale * s.w.pieceScale } }
    Prog.modify fun s => { s with w := { s.w with stat := .normal } }
    pure true

/-- The slots that may be missing before the hourly check pads them. -/
def Writer.padThreshold (w : Writer) : Int := if w.pieceScale > 3 then 0 else 2

/-- The guards at the head of `case STAT_NORMAL`; whether the piece is written. -/
def checkPieceId (env : Env) (fuel : Nat) : Prog World Bool := do
  let now ← getUTC env
  let s ← Prog.get
  if s.w.currentPieceId > u32 (now + s.w.pieceScale) then
    pure false
  else
    if s.w.needCheckID ∧ s.w.slotsBehind now > s.w.padThreshold then padLoop env 1 fuel
    pure true

/-- The rest of `case STAT_NORMAL`: the block of the header piece, the cue
point and the piece. -/
def writePiece (env : Env) (fuel : Nat) (piece : Piece) : Prog World Unit := do
  let cue ← cuePoint
  let s ← Prog.get
  writeBlock env fuel (.normal s.w.headerPiece piece) (s.w.headerPiece ++ cue ++ piece)
    (u32 (s.w.headerPieceLen + Piece.size cue + Piece.size piece)) 0

/-- `case STAT_NORMAL`. -/
def handleNormal (env : Env) (fuel : Nat) (piece : Piece) : Prog World Unit := do
  if ← checkPieceId env fuel then writePiece env fuel piece

/-- `CPPLBlockWriter::HandleWritePiece`. The outer `do … while (error_value)`
runs once: `error_value` is 0 whenever the inner loop ends. -/
def handleWritePiece (env : Env) (fuel : Nat) (piece : Piece) (mediaTs : Nat) : Prog World Unit := do
  baseHandleWritePiece mediaTs
  let s ← Prog.get
  match s.w.stat with
  | .firstPiece => storeHeaderPiece piece
  | .secondPiece => do
    if ← startPieces env fuel then handleNormal env fuel piece
  | .normal => handleNormal env fuel piece

/-! ## `HandleReaderError` and `OnClockAlarm` -/

def handleReaderError (env : Env) (fuel : Nat) : Prog World Unit := do
  reportReaderStatus false
  Prog.modify fun s => { s with w := { s.w with readerOk := false, stat := .firstPiece } }
  let nowId ← getUTC env
  fillLoop env nowId fuel

/-- `Remove piece.`: the expired pieces at the front of the queue. -/
def dropExpired (env : Env) (expired : PieceFileInfo → Bool) : List PieceFileInfo → Prog World Unit
  | [] => pure ()
  | f :: rest =>
    if expired f then do
      let _ ← tryRemove env f.path
      Prog.modify fun s => { s with fs := { s.fs with pieceFileQueue := rest } }
      dropExpired env expired rest
    else
      pure ()

def removeExpired (env : Env) (nowId : Nat) : Prog World Unit := do
  let s ← Prog.get
  dropExpired env (fun f => i32 nowId - i32 f.id - i32 s.w.pieceScale > i32 s.w.pieceLifeSpan)
    s.fs.pieceFileQueue

/-- `if (reader_ok_ == false)`: the slots without a piece are filled. -/
def fillOffair (env : Env) (nowId fuel : Nat) : Prog World Unit := do
  let s ← Prog.get
  if s.w.readerOk then pure () else fillLoop env nowId fuel

/-- `if (--report_alarm_ <= 0)`. -/
def countReport : Prog World Unit := do
  Prog.modify fun s => { s with w := { s.w with reportAlarm := s.w.reportAlarm - 1 } }
  let s ← Prog.get
  if s.w.reportAlarm ≤ 0 then reportReaderStatus s.w.readerOk else pure ()

/-- `CPieceWriter::OnClockAlarm`. -/
def baseOnClockAlarm (env : Env) (fuel : Nat) : Prog World Unit := do
  let nowId ← getUTC env
  removeExpired env nowId
  fillOffair env nowId fuel
  countReport

/-- The expired directories leave `dir_queue_`. -/
def removeDirs (nowId : Nat) : Prog World Unit :=
  Prog.modify fun s =>
    { s with fs := { s.fs with
        dirQueue := s.fs.dirQueue.dropWhile fun d =>
          i32 nowId - i32 (u32 (d.id * dirScale)) > i32 s.w.pieceLifeSpan } }

/-- `CPPLBlockWriter::OnClockAlarm`. -/
def onClockAlarm (env : Env) (fuel : Nat) : Prog World Unit := do
  let nowId ← getUTC env
  removeDirs nowId
  baseOnClockAlarm env fuel

/-! ## `HandleUpdateHeader` -/

/-- The loop over `header_piece_` from its second buffer on: the new buffers,
with `remove_size` if a tag of the type was found. Stepping over the end of
the vector, and reading the type from an empty buffer, is undefined. -/
def replaceTag (type : Nat) (head body : Buffer) : List Buffer → Option (List Buffer × Option Nat)
  | [] => some ([], none)
  | [_] => none
  | x :: y :: rest =>
    if x = [] then none
    else if tagType x = type then some (head :: body :: rest, some (x.length + y.length))
    else (replaceTag type head body rest).map fun r => (x :: y :: r.1, r.2)

/-- `CPPLBlockWriter::HandleUpdateHeader` of the tag with the buffers `head`
and `body`. -/
def handleUpdateHeader (head body : Buffer) : Prog World Unit := do
  let head := setTagTs head 0
  let addSize := u32 (head.length + body.length)
  let s ← Prog.get
  match s.w.headerPiece with
  | [] => Prog.undefined
  | first :: tags =>
    match replaceTag (tagType head) head body tags with
    | none => Prog.undefined
    | some (tags, some removeSize) =>
      Prog.modify fun s =>
        { s with w := { s.w with
            headerPiece := first :: tags
            headerPieceLen := u32 (sub32 s.w.headerPieceLen removeSize + addSize) } }
    | some (tags, none) =>
      Prog.modify fun s =>
        { s with w := { s.w with
            headerPiece := first :: tags ++ [head, body]
            headerPieceLen := u32 (s.w.headerPieceLen + addSize) } }

end XH.Impl.Cutter
