import Xhome.Framework.Reach
import Xhome.Impl.Cutter.Init
import Xhome.Impl.Cutter.Reader

/-!
# Reader and writer

The writer's `io_service` is a queue of handlers to run. `AsyncWritePiece`,
`AsyncUpdateHeader` and `ReaderError` post to it from the reader's thread;
the writer runs the oldest handler, or its clock alarm, as one step. A step of
the reader is one completion of its HTTP client or one tick of its clock.
-/

namespace XH.Impl.Cutter

/-- A posted handler with its arguments. `leaving` records whether the reader
posted the piece while leaving `STAT_NEED_HEAD`; the code does not look at it. -/
inductive Msg where
  | writePiece (leaving : Bool) (piece : Piece) (seekPointPos mediaTs : Nat)
  | updateHeader (head body : Buffer)
  | readerError
  deriving DecidableEq

/-- The handler of a message. -/
def handle (env : Env) (fuel : Nat) : Msg → Prog World Unit
  | .writePiece _ piece _ mediaTs => handleWritePiece env fuel piece mediaTs
  | .updateHeader head body => handleUpdateHeader head body
  | .readerError => handleReaderError env fuel

/-! ## The writer alone -/

/-- What the writer's thread runs next, with the rounds its loops may use. -/
inductive WriterEvent where
  | msg (fuel : Nat) (m : Msg)
  | alarm (fuel : Nat)

def writerProg (env : Env) : WriterEvent → Prog World Unit
  | .msg fuel m => handle env fuel m
  | .alarm fuel => onClockAlarm env fuel

/-- One step of the writer's thread that returns. -/
def writerStep (env : Env) (s : World) (e : WriterEvent) : Option World := (writerProg env e s).returned

/-! ## Both parties -/

structure System where
  reader : Reader
  world : World
  queue : List Msg

/-- The limit of `AsyncWritePiece` on `writing_piece_num_`. -/
def maxWritingPieces : Int := 50

/-- A call of the reader on the writer. -/
def post (leaving : Bool) (s : System) : Call → System
  | .asyncWritePiece piece seek ts =>
    if s.world.w.writingPieceNum < maxWritingPieces then
      { s with
        world := { s.world with
          w := { s.world.w with writingPieceNum := s.world.w.writingPieceNum + 1 } }
        queue := s.queue ++ [.writePiece leaving piece seek ts] }
    else s
  | .asyncUpdateHeader head body => { s with queue := s.queue ++ [.updateHeader head body] }
  | .readerError => { s with queue := s.queue ++ [.readerError] }

inductive Event where
  /-- A tick of the reader's clock. -/
  | tick
  /-- A completion of `async_open`. -/
  | opened (ok : Bool)
  /-- A completion of `async_receive` with data. -/
  | data (bytes : List Byte)
  /-- A completion of `async_receive` with an error or without data. -/
  | lost
  /-- The oldest handler of the writer's queue. -/
  | handle (fuel : Nat)
  /-- The writer's clock alarm. -/
  | alarm (fuel : Nat)

/-- What an event does to the reader, if it can occur. -/
def readerStep (r : Reader) : Event → Option (Reader × List Call)
  | .tick => some (readerOnClockAlarm r, [])
  | .opened ok => if r.op = .opening then some (onHttpOpen r ok, []) else none
  | .data bytes =>
    match r.op with
    | .receiving writePos =>
      if 0 < bytes.length ∧ bytes.length ≤ r.readingSize then some (onContent r writePos bytes) else none
    | _ => none
  | .lost =>
    match r.op with
    | .receiving _ => some (onError r)
    | _ => none
  | _ => none

/-- The header phase ends in this step. -/
def leavesNeedHead (r r' : Reader) : Bool := decide (r.stat = .needHead ∧ r'.stat = .needFlvData)

/-- The system after a step of the reader. -/
def applyReader (s : System) (out : Reader × List Call) : System :=
  out.2.foldl (post (leavesNeedHead s.reader out.1)) { s with reader := out.1 }

def systemStep (env : Env) (s : System) : Event → Option System
  | .handle fuel =>
    match s.queue with
    | m :: rest => (handle env fuel m s.world).returned.map fun t => { s with world := t, queue := rest }
    | [] => none
  | .alarm fuel => (onClockAlarm env fuel s.world).returned.map fun t => { s with world := t }
  | e => (readerStep s.reader e).map (applyReader s)

/-- The system when the reader starts, the writer initialised. -/
def startSystem (reader : Reader) (world : World) : System := ⟨reader, world, []⟩

end XH.Impl.Cutter
