import Xhome.Impl.Cutter.Init

/-!
# Piece files (`CPPLPieceWriter`, `CFLVPieceWriter`)

What the two writers of piece files have in common: one attempt to write a
file and to move it into place, the loops around the attempts, the slots to be
filled with special pieces, and the handlers of `CPieceWriter` with the
writer's own `WriteOneSpecialPiece`.

A `PieceWorld` is the state of `CPieceWriter` with its disk (`World`; the
fields of `CPPLBlockWriter` in it are not used), the fields `own` of the derived
class, and two logs the code does not have: the files put in place and the
entries appended to a queue of files. Bytes are written one after the other, so
that the history of the disk shows every length a file has had.
-/

namespace XH.Impl.Cutter

/-- What fails in one attempt to put a piece file in place. -/
inductive PieceFault where
  | none
  /-- The temporary file cannot be opened. -/
  | openFile
  /-- The archive is in an error state, with `n` bytes written. -/
  | write (n : Nat)
  /-- `exists`, `remove` or `rename` throws; `removed` if the old file was
  removed before. -/
  | rename (removed : Bool) (code : ErrorCode)
  deriving DecidableEq

/-- `exists`, `remove` or `copy_file` throws while a head piece is copied;
`copied` are the bytes `copy_file` has written, if it was called. -/
structure CopyFault where
  removed : Bool
  copied : Option Nat
  code : ErrorCode

/-- The environment of the piece writers; `faults` of `Env` is not used. -/
structure PieceEnv extends Env where
  pieceFaults : Nat → PieceFault
  copyFaults : Nat → Option CopyFault

/-- A file put in place: what was written into it, or `none` for a copy of a
head piece. `since` is the place in the history of the disk. -/
structure Placed (κ : Type) where
  note : Option κ
  path : Path
  content : List Byte
  since : Nat

structure PieceWorld (ρ κ : Type) where
  base : World
  own : ρ
  placed : List (Placed κ)
  pushed : List PieceFileInfo

variable {ρ κ : Type}

/-- Code of `CPieceWriter`. -/
def onBase {α : Type} (m : Prog World α) : Prog (PieceWorld ρ κ) α := fun s =>
  match m s.base with
  | .ret a b => .ret a { s with base := b }
  | .run b => .run { s with base := b }
  | .ub => .ub

/-! ## Paths -/

/-- `".piece"` -/
def pieceExtension : Name := ['.', 'p', 'i', 'e', 'c', 'e']

/-- `".flv"` -/
def flvExtension : Name := ['.', 'f', 'l', 'v']

/-- `".head"` -/
def headExtension : Name := ['.', 'h', 'e', 'a', 'd']

/-- `current_piece_id_ << ".piece.tmp"`, and the like. -/
def tmpName (id : Nat) (ext : Name) : Name := decimal id ++ ext ++ tmpExtension

/-- `path::replace_extension`. -/
def replaceExtension (p : Path) (ext : Name) : Path := p.dropLast ++ [stem (p.getLast?.getD []) ++ ext]

/-- `path.string() + ext`. -/
def appendExtension (p : Path) (ext : Name) : Path := p.dropLast ++ [p.getLast?.getD [] ++ ext]

def setFilePath (p : Path) : Prog World Unit := Prog.modify fun s => { s with fs := { s.fs with filePath := p } }

/-! ## One attempt -/

/-- The file at `p` grows through the given contents. -/
def writeThrough (p : Path) : List (List Byte) → Prog World Unit
  | [] => pure ()
  | c :: cs => do
    diskOp (·.write p c)
    writeThrough p cs

/-- What fails in this attempt. -/
def nextFault (env : PieceEnv) : Prog World (PieceFault × Option CopyFault) := do
  let s ← Prog.get
  Prog.modify fun s => { s with fs := { s.fs with attempts := s.fs.attempts + 1 } }
  pure (env.pieceFaults s.fs.attempts, env.copyFaults s.fs.attempts)

/-- `Write file`: the temporary file below `file_path_`, which becomes its path;
the error value of a `break`. No file can be opened outside the directories. -/
def writeTmp (fault : PieceFault) (name : Name) (content : List Byte) : Prog World (Option Int) := do
  let s ← Prog.get
  let path := s.fs.filePath ++ [name]
  setFilePath path
  if fault = .openFile ∨ path.dropLast ∉ s.fs.disk.dirs then
    pure (some 1)
  else
    match fault with
    | .write n => do
      writeThrough path (content.take n).inits
      pure (some 2)
    | _ => do
      writeThrough path content.inits
      pure none

/-- The file at `path` is in place. -/
def record (note : Option κ) (path : Path) : Prog (PieceWorld ρ κ) Unit :=
  Prog.modify fun s =>
    { s with placed := s.placed ++
        [⟨note, path, (s.base.fs.disk.read path).getD [], s.base.fs.history.length - 1⟩] }

/-- `exists`, `remove`, `rename`; the code of the exception. -/
def moveIntoPlace (note : κ) (source target : Path) : PieceFault → Prog (PieceWorld ρ κ) (Option Int)
  | .rename removed code => do
    if removed then onBase (diskOp (·.remove target))
    pure (some code.val)
  | _ => do
    let s ← Prog.get
    if s.base.fs.disk.has target then onBase (diskOp (·.remove target))
    onBase (diskOp (·.rename source target))
    record (some note) target
    pure none

/-- `exists`, `remove`, `copy_file`; the code of the exception. -/
def copyIntoPlace (source target : Path) : Option CopyFault → Prog (PieceWorld ρ κ) (Option Int)
  | some fault => do
    let s ← Prog.get
    if fault.removed then onBase (diskOp (·.remove target))
    match fault.copied with
    | some n => onBase (writeThrough target (((s.base.fs.disk.read source).getD []).take n).inits)
    | none => pure ()
    pure (some fault.code.val)
  | none => do
    let s ← Prog.get
    if s.base.fs.disk.has target then onBase (diskOp (·.remove target))
    onBase (writeThrough target ((s.base.fs.disk.read source).getD []).inits)
    record none target
    pure none

/-- How an attempt ends: `error_value`, and whether a `break` came before the
rename. -/
structure AttemptEnd where
  broke : Bool
  errorValue : Int

/-- One attempt to write a file with the extension `ext`. An attempt that
succeeds leaves `error_value` as it was. -/
def attemptPiece (env : PieceEnv) (ext : Name) (note : κ) (content : List Byte) (errorValue : Int) :
    Prog (PieceWorld ρ κ) AttemptEnd := do
  let fault ← onBase (nextFault env)
  let s ← Prog.get
  match ← onBase (writeTmp fault.1 (tmpName s.base.w.currentPieceId ext) content) with
  | some e => pure ⟨true, e⟩
  | none => do
    let s ← Prog.get
    let source := s.base.fs.filePath
    onBase (setFilePath (replaceExtension source []))
    let thrown ← moveIntoPlace note source (replaceExtension source []) fault.1
    pure ⟨false, thrown.getD errorValue⟩

/-- One attempt to write a head piece: `xxx.piece.head` and its copy `xxx.piece`. -/
def attemptHead (env : PieceEnv) (note : κ) (content : List Byte) (errorValue : Int) :
    Prog (PieceWorld ρ κ) AttemptEnd := do
  let fault ← onBase (nextFault env)
  let s ← Prog.get
  match ← onBase (writeTmp fault.1 (tmpName s.base.w.currentPieceId pieceExtension) content) with
  | some e => pure ⟨true, e⟩
  | none => do
    let s ← Prog.get
    let source := s.base.fs.filePath
    let head := replaceExtension source headExtension
    onBase (setFilePath head)
    match ← moveIntoPlace note source head fault.1 with
    | some code => pure ⟨false, code⟩
    | none => do
      onBase (setFilePath (replaceExtension head []))
      let thrown ← copyIntoPlace head (replaceExtension head []) fault.2
      pure ⟨false, thrown.getD errorValue⟩

/-- `do … while (true)` around the attempts. The `break` of an attempt leaves
this loop in `WriteOneSpecialPiece` (`leaves`); in `HandleWritePiece` it leaves
a loop of its own inside this one. -/
def retryLoop (env : PieceEnv) (leaves : Bool) (attempt : Int → Prog (PieceWorld ρ κ) AttemptEnd)
    (pieceLength : Nat) : Nat → Int → Nat → Prog (PieceWorld ρ κ) Unit
  | 0, _, _ => Prog.running
  | n + 1, errorValue, removedSize => do
    let r ← attempt errorValue
    if leaves ∧ r.broke then
      pure ()
    else if r.errorValue ≠ 0 then
      if removedSize < u32 (2 * pieceLength) then
        onBase (decreasePiece env.toEnv pieceLength)
        retryLoop env leaves attempt pieceLength n r.errorValue (u32 (removedSize + pieceLength))
      else
        retryLoop env leaves attempt pieceLength n r.errorValue removedSize
    else
      pure ()

/-- The entry of the piece in `piece_file_queue_`, and the step to the next slot. -/
def pushPiece (pieceLength : Nat) : Prog (PieceWorld ρ κ) Unit :=
  Prog.modify fun s =>
    let entry : PieceFileInfo := ⟨s.base.w.currentPieceId, s.base.fs.filePath, pieceLength⟩
    { s with
      base := { s.base with
        fs := { s.base.fs with
          pieceFileQueue := s.base.fs.pieceFileQueue ++ [entry], filePath := s.base.fs.filePath.dropLast }
        w := { s.base.w with currentPieceId := u32 (s.base.w.currentPieceId + s.base.w.pieceScale) } }
      pushed := s.pushed ++ [entry] }

/-- The loop and the end of a `WriteOneSpecialPiece`. -/
def writeSpecial (env : PieceEnv) (fuel : Nat) (ext : Name) (note : κ) (content : List Byte) (pieceLength : Nat) :
    Prog (PieceWorld ρ κ) Unit := do
  let s ← Prog.get
  retryLoop env true (attemptPiece env ext note content) pieceLength fuel 0 (env.removedSize s.base.fs.attempts)
  pushPiece pieceLength

/-- The loop and the end of `case STAT_NORMAL`. -/
def writeData (env : PieceEnv) (fuel : Nat) (ext : Name) (note : κ) (content : List Byte) (pieceLength : Nat) :
    Prog (PieceWorld ρ κ) Unit := do
  retryLoop env false (attemptPiece env ext note content) pieceLength fuel 0 0
  pushPiece pieceLength

/-! ## Slots -/

section
variable (env : PieceEnv) (special : Nat → Nat → Prog (PieceWorld ρ κ) Unit)

/-- `while ((int)(GetUTC() - current_piece_id_) / (int)piece_scale_ > 0)` of
`HandleWritePiece`. The special pieces are given their rounds and their type. -/
def padSlots (specialType : Nat) : Nat → Prog (PieceWorld ρ κ) Unit
  | 0 => Prog.running
  | n + 1 => do
    let now ← onBase (getUTC env.toEnv)
    let s ← Prog.get
    if s.base.w.slotsBehind now > 0 then
      special (n + 1) specialType
      padSlots specialType n
    else
      pure ()

/-- The loop of `HandleReaderError` and `OnClockAlarm` up to `now_id`. -/
def fillSlots (nowId : Nat) : Nat → Prog (PieceWorld ρ κ) Unit
  | 0 => Prog.running
  | n + 1 => do
    let s ← Prog.get
    if s.base.w.currentPieceId ≠ 0 ∧ s.base.w.slotsBehind nowId > 0 then
      special (n + 1) 0
      fillSlots nowId n
    else
      pure ()

/-- The beginning of `case STAT_SECOND_PIECE`; whether control goes on. -/
def startSlots (fuel : Nat) : Prog (PieceWorld ρ κ) Bool := do
  let now ← onBase (getUTC env.toEnv)
  let s ← Prog.get
  if s.base.w.currentPieceId > now then
    pure false
  else
    if s.base.w.currentPieceId > 0 then
      padSlots env special 0 fuel
    else
      let now ← onBase (getUTC env.toEnv)
      Prog.modify fun s =>
        { s with base := { s.base with
            w := { s.base.w with currentPieceId := now / s.base.w.pieceScale * s.base.w.pieceScale } } }
    pure true

/-- The guards at the head of `case STAT_NORMAL`; whether the piece is written. -/
def checkSlot (fuel : Nat) : Prog (PieceWorld ρ κ) Bool := do
  let now ← onBase (getUTC env.toEnv)
  let s ← Prog.get
  if s.base.w.currentPieceId > u32 (now + s.base.w.pieceScale) then
    pure false
  else
    if s.base.w.needCheckID ∧ s.base.w.slotsBehind now > s.base.w.padThreshold then padSlots env special 1 fuel
    pure true

/-- `CPieceWriter::HandleReaderError`. -/
def pieceReaderError (fuel : Nat) : Prog (PieceWorld ρ κ) Unit := do
  onBase (reportReaderStatus false)
  onBase (Prog.modify fun s => { s with w := { s.w with readerOk := false, stat := .firstPiece } })
  let nowId ← onBase (getUTC env.toEnv)
  fillSlots special nowId fuel

/-- `CPieceWriter::OnClockAlarm`. -/
def pieceClockAlarm (fuel : Nat) : Prog (PieceWorld ρ κ) Unit := do
  let nowId ← onBase (getUTC env.toEnv)
  onBase (removeExpired env.toEnv nowId)
  let s ← Prog.get
  if s.base.w.readerOk then pure () else fillSlots special nowId fuel
  onBase countReport

end

/-! ## Starting -/

/-- What the thread of the writer runs next, with the rounds its loops may use. -/
inductive PieceEvent where
  | writePiece (fuel : Nat) (piece : Piece) (seekPointPos mediaTs : Nat)
  | readerError (fuel : Nat)
  | alarm (fuel : Nat)

/-- `Load special-tags.` -/
def loadSpecialTags (env : Env) : Prog World Unit :=
  Prog.modify fun s =>
    { s with w := { s.w with
        offairTag := some (env.onairTag.getD offairTagData), checkpointTag := some checkPointTagData } }

/-- The files with the extension `ext`, by the number in their names. -/
def scanFiles (disk : Tree) (dir : Path) (ext : Name) : List (Nat × PieceFileInfo) :=
  mapOfList ((disk.filesIn dir).filterMap fun f =>
    let id := u32OfInt (atoi (stem f.1))
    if extension f.1 = ext ∧ id ≠ 0 ∧ f.2.length ≠ 0 then some (id, ⟨id, dir ++ [f.1], f.2.length⟩) else none)

/-- Whether a file of the number `id` is older than `lifeSpan`. -/
def expired (nowId pieceScale lifeSpan : Nat) (f : PieceFileInfo) : Bool :=
  i32 (sub32 nowId f.id) - i32 pieceScale > i32 lifeSpan

/-- `Remove piece.` of `Run`, and the id after the last piece. -/
def resumeSlots (env : Env) (nowId : Nat) : Prog World Unit := do
  let s ← Prog.get
  dropExpired env (expired nowId s.w.pieceScale s.w.pieceLifeSpan) s.fs.pieceFileQueue
  Prog.modify fun s =>
    match s.fs.pieceFileQueue.getLast? with
    | some f => { s with w := { s.w with currentPieceId := u32 (f.id + s.w.pieceScale) } }
    | none => s

end XH.Impl.Cutter
