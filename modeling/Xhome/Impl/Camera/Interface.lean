import Xhome.Framework.Memory
import Xhome.Framework.Reach

/-!
# The camera's frame ring (`camera/interface.c`)

`pushFrame` puts a frame, its `FrameInfo_t` and its data, into `buffer` behind
`write_pos`, `popFrame` takes the one at `read_pos`. The positions are offsets
into `buffer`; an `unsigned long` has four bytes on the camera. The sections
under `w_mutex` are single steps; `sem_post` and `sem_wait` are steps of their
own.
-/

namespace XH.Impl.Camera

/-- `MAX_MEMORY` -/
def maxMemory : Nat := 1024 * 2 * 1024

/-- The fields of `FrameInfo_t`. -/
structure FrameInfo where
  serialNo : BitVec 32
  width : BitVec 32
  height : BitVec 32
  format : BitVec 32
  frameType : BitVec 32
  timestamp : BitVec 32
  frameRateSamplingRate : BitVec 32
  videoCap : BitVec 32
  size : BitVec 32

/-- A packed `FrameInfo_t` in memory. -/
def FrameInfo.bytes (f : FrameInfo) : List Byte :=
  [f.serialNo, f.width, f.height, f.format, f.frameType, f.timestamp, f.frameRateSamplingRate, f.videoCap,
    f.size].flatMap fun v => bytesOf 4 v.toNat

/-- `sizeof(FrameInfo_t)` -/
def sizeofFrameInfo : Nat := 36

/-- The offset of `size` in a `FrameInfo_t`. -/
def sizeOffset : Nat := 32

/-- The arguments of `pushFrame`: `data` has the `size` bytes of the frame. -/
structure Frame where
  info : FrameInfo
  data : List Byte
  sized : data.length = info.size.toNat

/-- A frame as it is stored. -/
def Frame.bytes (f : Frame) : List Byte := f.info.bytes ++ f.data

structure Ring where
  buffer : Mem
  readPos : Nat
  writePos : Nat
  bufferEndPos : Nat
  /-- The frames that `myfree` has passed over, as they lay in `buffer`. -/
  freed : List (List Byte)

def Ring.initial : Ring := ⟨fun _ => 0, 0, 0, maxMemory, []⟩

/-- `((FrameInfo_t*)p)->size` -/
def sizeAt (m : Mem) (p : Nat) : Nat := valueOf (m.load (p + sizeOffset) 4)

/-- The frame at `read_pos`. -/
def topFrame (r : Ring) : List Byte :=
  r.buffer.load r.readPos (u32 (sizeofFrameInfo + sizeAt r.buffer r.readPos))

def myfree (r : Ring) : Ring :=
  let readPos := r.readPos + u32 (sizeofFrameInfo + sizeAt r.buffer r.readPos + 1)
  let freed := r.freed ++ [topFrame r]
  if r.bufferEndPos ≤ readPos then { r with readPos := 0, bufferEndPos := maxMemory, freed := freed }
  else { r with readPos := readPos, freed := freed }

def discardFrame (r : Ring) : Ring := myfree r

/-- `while (write_pos + size + 1 >= read_pos) discardFrame()`; `fuel` bounds the rounds. -/
def discardWhile : (fuel : Nat) → Ring → (size : Nat) → Option Ring
  | 0, _, _ => none
  | fuel + 1, r, size =>
    if r.readPos ≤ r.writePos + size + 1 then discardWhile fuel (discardFrame r) size else some r

/-- The first `if` of `myallocate`. -/
def makeRoom (fuel : Nat) (r : Ring) (size : Nat) : Option Ring :=
  if r.writePos < r.readPos ∧ r.readPos ≤ r.writePos + size + 1 then discardWhile fuel r size else some r

/-- The writer starts over at the beginning of the buffer. -/
def wrap (r : Ring) : Ring :=
  let r := { r with bufferEndPos := r.writePos, writePos := 0 }
  if r.writePos = r.readPos then discardFrame r else r

/-- The ring behind the call and the address; `fuel` bounds the recursion and the loop. -/
def myallocate : (fuel : Nat) → Ring → (size : Nat) → Option (Ring × Nat)
  | 0, _, _ => none
  | fuel + 1, r, size => do
    let r ← makeRoom fuel r size
    if maxMemory < r.writePos + size then myallocate fuel (wrap r) size
    else some ({ r with writePos := r.writePos + (size + 1) }, r.writePos)

/-- The section of `pushFrame` under `w_mutex`. -/
def pushFrame (fuel : Nat) (r : Ring) (f : Frame) : Option Ring := do
  let (r, waddress) ← myallocate fuel r (u32 (sizeofFrameInfo + f.info.size.toNat))
  some { r with buffer := (r.buffer.store waddress f.info.bytes).store (waddress + sizeofFrameInfo) f.data }

/-! ## Both sides -/

structure Service where
  ring : Ring
  /-- The value of the semaphore. -/
  full : Nat
  /-- The calls of `pushFrame` that have unlocked and not posted yet. -/
  posting : Nat
  /-- The calls of `popFrame` that have waited and not locked yet. -/
  waited : Nat
  /-- The frames pushed so far. -/
  pushed : List Frame
  /-- What `popFrame` has returned so far. -/
  popped : List (List Byte)

def Service.initial : Service := ⟨.initial, 0, 0, 0, [], []⟩

inductive Event where
  /-- `pushFrame` under `w_mutex`. -/
  | push (fuel : Nat) (f : Frame)
  /-- `sem_post` of a `pushFrame`. -/
  | post
  /-- `sem_wait` of a `popFrame`. -/
  | wait
  /-- `popFrame` under `w_mutex`. -/
  | pop

def step (s : Service) : Event → Option Service
  | .push fuel f => (pushFrame fuel s.ring f).map fun r =>
    { s with ring := r, posting := s.posting + 1, pushed := s.pushed ++ [f] }
  | .post => if 0 < s.posting then some { s with posting := s.posting - 1, full := s.full + 1 } else none
  | .wait => if 0 < s.full then some { s with full := s.full - 1, waited := s.waited + 1 } else none
  | .pop =>
    if 0 < s.waited then
      some { s with ring := myfree s.ring, waited := s.waited - 1, popped := s.popped ++ [topFrame s.ring] }
    else none

/-- The frames that have been neither popped nor discarded, the oldest one first:
what has left the ring is counted, so they are the frames in the ring while the
reader finds a frame each time (`Layout`). -/
def Service.stored (s : Service) : List Frame := s.pushed.drop s.ring.freed.length

end XH.Impl.Camera
