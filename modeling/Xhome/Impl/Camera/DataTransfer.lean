import Xhome.Impl.Camera.Interface

/-!
# The camera's recording (`camera/AVdataTransfer.c`)

`StartDataTransfer` pops one frame after the other and writes it to
`record.file`. `fwrite` reads from the block that `popFrame` has allocated, and
on behind it where it is given more bytes than the block has.
-/

namespace XH.Impl.Camera

/-- `sizeof(char*)` on the camera. -/
def sizeofCharPtr : Nat := 4

/-- `5*1024*1024` -/
def recordLimit : Nat := 5 * 1024 * 1024

/-- What `popFrame` returns: an address in memory, with the frame at it. -/
structure TopFrame where
  heap : Mem
  topframe : Nat
  frame : Frame
  copied : heap.load topframe frame.bytes.length = frame.bytes

/-- The local variables of `StartDataTransfer`, with the content of the file. -/
structure Recorder where
  offset : Nat
  recordFile : List Byte

def Recorder.initial : Recorder := ⟨0, []⟩

/-- One round of `while(1)`. -/
def Recorder.round (r : Recorder) (t : TopFrame) : Recorder :=
  let n := u32 (sizeofFrameInfo + sizeAt t.heap t.topframe)
  if r.offset < recordLimit then
    -- `n` elements of the size of a pointer
    { offset := u32 (r.offset + n), recordFile := r.recordFile ++ t.heap.load t.topframe (u32 (sizeofCharPtr * n)) }
  else { r with recordFile := [] }

/-- `StartDataTransfer` behind these frames. -/
def startDataTransfer (ts : List TopFrame) : Recorder := ts.foldl Recorder.round .initial

end XH.Impl.Camera
