import Xhome.Framework.Prog
import Xhome.Framework.Tree
import Xhome.Impl.Cutter.Block

/-!
# The block writer (`CPieceWriter`, `CPPLBlockWriter`): writing one block

The object's fields (`Writer`), its directory and file queues with the disk
(`Storage`), and the code that puts one block file in place: `GetFilePathName`,
`DecreasePiece`, the retry loop and `WriteOneSpecialPiece`.

The environment `Env` holds what the code reads from outside: the successive
values of `time(NULL)`, what fails in each attempt to write a file, which
removals throw, and the values of the variable `removed_size` that
`WriteOneSpecialPiece` does not initialise. Assertions and log output have no
effect on the state and are left out.
-/

namespace XH.Impl.Cutter

def idCheckScale : Nat := 3600
def dirScale : Nat := 1000

/-- `e.code().value()` of a `filesystem_error`. -/
abbrev ErrorCode := { n : Int // n ≠ 0 }

/-- What fails in one attempt to write a block file. -/
inductive Fault where
  | none
  /-- `exists` or `create_directories` throws in `GetFilePathName`. -/
  | createDirectories
  /-- The temporary file cannot be opened. -/
  | openFile
  /-- The archive is in an error state after the writes. -/
  | write
  /-- `exists`, `remove` or `rename` throws; `removed` if the old file was
  removed before. -/
  | rename (removed : Bool) (code : ErrorCode)
  deriving DecidableEq

structure Env where
  utc : Nat → Nat
  faults : Nat → Fault
  removeThrows : Nat → Bool
  removedSize : Nat → Nat
  md5 : List Byte → Vector Byte 16
  onairTag : Option Buffer

inductive Stat where
  | firstPiece
  | secondPiece
  | normal
  deriving DecidableEq

structure PieceFileInfo where
  id : Nat
  path : Path
  size : Nat
  deriving DecidableEq

structure DirInfo where
  id : Nat
  path : Path
  deriving DecidableEq

/-- The fields of the object, apart from its queues of files. -/
structure Writer where
  guidStr : Name
  dirPath : Path
  pieceScale : Nat
  checkpointScale : Nat
  pieceLifeSpan : Nat
  statusReportPeriod : Nat
  headerPiece : Piece
  headerPieceLen : Nat
  currentPieceId : Nat
  stat : Stat
  readerOk : Bool
  writingPieceNum : Int
  offairTag : Option Buffer
  checkpointTag : Option Buffer
  curMediaTs : Nat
  reportAlarm : Int
  blockHeader : FlvBlockHeader

/-- Where a block comes from: `WriteOneSpecialPiece`, or `HandleWritePiece`
with the header piece and the piece it was made of. -/
inductive BlockKind where
  | special (specialType : Nat)
  | normal (headerPiece piece : Piece)
  deriving DecidableEq

/-- A block file put in place, with the last reading of the clock before. -/
structure Written where
  kind : BlockKind
  id : Nat
  path : Path
  content : List Byte
  now : Nat

/-- The queues of files and the disk. `history` holds every state the disk has
been in, `written` the block files put in place, `attempts` and `removes`
count the steps the environment decides. -/
structure Storage where
  filePath : Path
  dirQueue : List DirInfo
  pieceFileQueue : List PieceFileInfo
  disk : Tree
  history : List Tree
  written : List Written
  attempts : Nat
  removes : Nat

structure World where
  w : Writer
  fs : Storage
  reads : Nat
  reports : List Bool

/-- `GetUTC`: the next reading of the clock. -/
def getUTC (env : Env) : Prog World Nat := fun s => .ret (env.utc s.reads) { s with reads := s.reads + 1 }

/-- The last reading of the clock. -/
def World.now (env : Env) (s : World) : Nat := env.utc (s.reads - 1)

def Writer.needCheckPointTag (w : Writer) : Bool := w.currentPieceId % w.checkpointScale == 0
def Writer.needCheckID (w : Writer) : Bool := w.currentPieceId % idCheckScale == 0

/-- `(int)(now - current_piece_id_) / (int)piece_scale_`. -/
def Writer.slotsBehind (w : Writer) (now : Nat) : Int := (i32 (sub32 now w.currentPieceId)).tdiv (i32 w.pieceScale)

/-! ## The disk -/

/-- A change of the disk. -/
def diskOp (f : Tree → Tree) : Prog World Unit :=
  Prog.modify fun s => { s with fs := { s.fs with disk := f s.fs.disk, history := s.fs.history ++ [f s.fs.disk] } }

/-- `create_directories`: the missing directories from `p` down to `p ++ ns`. -/
def createDirectories (p : Path) : List Name → Prog World Unit
  | [] => pure ()
  | n :: ns => do
    let s ← Prog.get
    if !s.fs.disk.has (p ++ [n]) then diskOp (·.mkdir (p ++ [n]))
    createDirectories (p ++ [n]) ns

/-- `".block"` -/
def blockExtension : Name := ['.', 'b', 'l', 'o', 'c', 'k']

/-- `".tmp"` -/
def tmpExtension : Name := ['.', 't', 'm', 'p']

def blockName (id : Nat) : Name := decimal id ++ blockExtension

/-- `file_path_str + ".tmp"`. -/
def tmpPath (p : Path) : Path := p.dropLast ++ [p.getLast?.getD [] ++ tmpExtension]

/-- Whether `GetFilePathName` enters a new directory. -/
def World.entersDir (s : World) : Bool :=
  s.fs.dirQueue.getLast?.map (·.id) != some (s.w.currentPieceId / dirScale)

/-- `GetFilePathName`; the empty path if the directory cannot be created. -/
def getFilePathName (fault : Fault) : Prog World Path := do
  let s ← Prog.get
  let dirId := s.w.currentPieceId / dirScale
  if s.entersDir then
    let dir := s.w.dirPath ++ [decimal dirId, s.w.guidStr]
    Prog.modify fun s => { s with fs := { s.fs with filePath := dir } }
    if fault = .createDirectories then
      pure []
    else
      createDirectories [] dir
      Prog.modify fun s =>
        { s with fs := { s.fs with dirQueue := s.fs.dirQueue ++ [⟨dirId, dir⟩], pieceFileQueue := [] } }
      pure (dir ++ [blockName s.w.currentPieceId])
  else
    pure (s.fs.filePath ++ [blockName s.w.currentPieceId])

/-- The code of the exception that renaming to the empty path throws. -/
def enoent : Int := 2

/-- Moves the finished temporary file into place. -/
def renameBlock (env : Env) (kind : BlockKind) (path : Path) : Prog World Unit := do
  let s ← Prog.get
  if s.fs.disk.has path then diskOp (·.remove path)
  diskOp (·.rename (tmpPath path) path)
  Prog.modify fun t =>
    { t with fs := { t.fs with
        written := t.fs.written ++
          [⟨kind, t.w.currentPieceId, path, (t.fs.disk.read path).getD [], t.now env⟩] } }

/-- The file at `path`: opened, written and moved into place. The result is the
new `error_value`; a success leaves `error_value` as it was. -/
def writeFile (env : Env) (kind : BlockKind) (content : List Byte) (errorValue : Int) (fault : Fault) (path : Path) :
    Prog World Int := do
  if fault = .openFile then
    pure 1
  else
    diskOp (·.write (tmpPath path) [])
    if fault = .write then
      pure 2
    else
      diskOp (·.write (tmpPath path) content)
      match fault with
      | .rename removed code =>
        if removed then diskOp (·.remove path)
        pure code.val
      | _ =>
        if path = [] then
          pure enoent
        else
          renameBlock env kind path
          pure errorValue

/-- The inner `do … while (false)`: one attempt to write the file. The result
is the new `error_value` and `file_path_str`. -/
def attempt (env : Env) (kind : BlockKind) (dataCollection : Piece) (errorValue : Int) :
    Prog World (Int × Path) := do
  let s ← Prog.get
  let fault := env.faults s.fs.attempts
  Prog.modify fun s => { s with fs := { s.fs with attempts := s.fs.attempts + 1 } }
  let path ← getFilePathName fault
  let errorValue ← writeFile env kind (s.w.blockHeader.serialize ++ dataCollection.flatten) errorValue fault path
  pure (errorValue, path)

/-- `filesystem::remove` in a `try` block; whether it went through. -/
def tryRemove (env : Env) (path : Path) : Prog World Bool := do
  let s ← Prog.get
  Prog.modify fun s => { s with fs := { s.fs with removes := s.fs.removes + 1 } }
  if env.removeThrows s.fs.removes then
    pure false
  else
    diskOp (·.remove path)
    pure true

/-- The loop of `DecreasePiece` over the front of `piece_file_queue_`. -/
def decreaseLoop (env : Env) (removeSize : Nat) : List PieceFileInfo → Nat → Prog World Unit
  | [], _ => pure ()
  | f :: rest, removedSize =>
    if removeSize > removedSize then do
      let s ← Prog.get
      let removed ← if s.fs.disk.has f.path then tryRemove env f.path else pure false
      Prog.modify fun s => { s with fs := { s.fs with pieceFileQueue := rest } }
      decreaseLoop env removeSize rest (if removed then u32 (removedSize + f.size) else removedSize)
    else
      pure ()

def decreasePiece (env : Env) (removeSize : Nat) : Prog World Unit := do
  let s ← Prog.get
  decreaseLoop env removeSize s.fs.pieceFileQueue 0

/-- `do … while (true)`: attempts until `error_value` is 0, removing old pieces
first and sleeping once enough have been removed. -/
def writeLoop (env : Env) (kind : BlockKind) (dataCollection : Piece) (pieceLength : Nat) :
    Nat → Int → Nat → Prog World Path
  | 0, _, _ => Prog.running
  | n + 1, errorValue, removedSize => do
    let r ← attempt env kind dataCollection errorValue
    if r.1 ≠ 0 then
      if removedSize < u32 (2 * pieceLength) then
        decreasePiece env pieceLength
        writeLoop env kind dataCollection pieceLength n r.1 (u32 (removedSize + pieceLength))
      else
        writeLoop env kind dataCollection pieceLength n r.1 removedSize
    else
      pure r.2

/-! ## A block -/

/-- The cue point: written into `checkpoint_tag_` when one is due. -/
def cuePoint : Prog World Piece := do
  let s ← Prog.get
  match s.w.checkpointTag with
  | some tag =>
    if s.w.needCheckPointTag then
      let tag := setCheckId tag s.w.currentPieceId
      Prog.modify fun s => { s with w := { s.w with checkpointTag := some tag } }
      pure [tag]
    else
      pure []
  | none => pure []

/-- `Assign values of block_header.` -/
def setBlockHeader (env : Env) (pieceLength : Nat) (dataCollection : Piece) : Prog World Unit :=
  Prog.modify fun s =>
    { s with w := { s.w with
        blockHeader := hashBlockHeader env.md5
          (assignBlockHeader s.w.blockHeader s.w.currentPieceId pieceLength dataCollection) } }

/-- The header, the file and the entry of a block with the buffers
`dataCollection`, of `pieceLength` bytes by the routine's own count. -/
def writeBlock (env : Env) (fuel : Nat) (kind : BlockKind) (dataCollection : Piece)
    (pieceLength removedSize : Nat) : Prog World Unit := do
  setBlockHeader env pieceLength dataCollection
  let pieceLength := u32 (pieceLength + flvBlockHeaderTSize)
  let path ← writeLoop env kind dataCollection pieceLength fuel 0 removedSize
  Prog.modify fun s =>
    { s with
      fs := { s.fs with
        pieceFileQueue := s.fs.pieceFileQueue ++ [⟨s.w.currentPieceId, path, pieceLength⟩] }
      w := { s.w with currentPieceId := u32 (s.w.currentPieceId + s.w.pieceScale) } }

/-- `cur_media_ts_` after a special piece. -/
def nextMediaTs (w : Writer) : Nat :=
  let ts := u32 (w.curMediaTs + u32 (w.pieceScale * 1000))
  if ts ≥ w.curMediaTs then ts else w.curMediaTs

/-- The off-air tag of a special piece of type 0. -/
def offair (specialType : Nat) : Prog World Piece := do
  let s ← Prog.get
  if specialType = 0 then
    Prog.modify fun s => { s with w := { s.w with curMediaTs := nextMediaTs s.w } }
    pure s.w.offairTag.toList
  else
    pure []

/-- `CPPLBlockWriter::WriteOneSpecialPiece`. -/
def writeOneSpecialPiece (env : Env) (fuel specialType : Nat) : Prog World Unit := do
  if specialType ≤ 1 then
    let cue ← cuePoint
    let tags ← offair specialType
    let s ← Prog.get
    let dataCollection := flvHeader :: (cue ++ tags)
    writeBlock env fuel (.special specialType) dataCollection (u32 (Piece.size dataCollection))
      (env.removedSize s.fs.attempts)
  else
    pure ()

end XH.Impl.Cutter
