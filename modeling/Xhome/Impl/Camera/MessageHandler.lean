import Xhome.Framework.Memory
import Xhome.Framework.Socket

/-!
# The camera's message handler (`camera/MessageHandler.c`)

`getMsg` reads one message from the server with one `recv` for the header and
one for the body, `pollMsg` answers it. `recv` reads the byte stream of the
connection: `client_socket` is taken to be its descriptor, though
`MessageHandler` opens it in a local variable of that name. Whether `malloc`
has room is an argument; `printf` is left out, and so are failures of `send`,
which `pollMsg` does not look at.
-/

namespace XH.Impl.Camera

/-- A `MsgHeader`, without the body behind it. -/
structure MsgHeader where
  id : BitVec 16
  size : BitVec 16
  lrc : BitVec 16
  reserved : BitVec 16
  referid : BitVec 32
  deriving DecidableEq

/-- `sizeof(MsgHeader)` -/
def sizeofMsgHeader : Nat := 12

/-- A packed `MsgHeader` in memory. -/
def MsgHeader.bytes (h : MsgHeader) : List Byte :=
  bytesOf 2 h.id.toNat ++ (bytesOf 2 h.size.toNat ++ (bytesOf 2 h.lrc.toNat ++ (bytesOf 2 h.reserved.toNat ++
    bytesOf 4 h.referid.toNat)))

/-- The `MsgHeader` at these bytes. -/
def MsgHeader.ofBytes (b : List Byte) : MsgHeader where
  id := .ofNat 16 (valueOf (b.take 2))
  size := .ofNat 16 (valueOf ((b.drop 2).take 2))
  lrc := .ofNat 16 (valueOf ((b.drop 4).take 2))
  reserved := .ofNat 16 (valueOf ((b.drop 6).take 2))
  referid := .ofNat 32 (valueOf ((b.drop 8).take 4))

/-- A message: `data` has the `size` bytes of the body. -/
structure Msg where
  header : MsgHeader
  data : List Byte
  sized : data.length = header.size.toNat
  deriving DecidableEq

/-- A message as it is sent. -/
def Msg.bytes (m : Msg) : List Byte := m.header.bytes ++ m.data

/-- The values of `MSGID` that `pollMsg` knows. -/
inductive MsgId where
  | handshake
  | getCameraInfo
  | rotateCamera
  | getDataServerInfo
  deriving DecidableEq

def MsgId.value : MsgId → BitVec 16
  | handshake => 1
  | getCameraInfo => 2
  | rotateCamera => 3
  | getDataServerInfo => 1001

/-- The rest of `getMsg` behind the header: the message or `NULL`, and the segments left. -/
def getBody (header : MsgHeader) (segs : List (List Byte)) : Option (Option Msg × List (List Byte)) :=
  if hz : header.size ≠ 0 then
    (recv header.size.toNat segs).map fun out =>
      if hl : out.1.length = header.size.toNat then (some ⟨header, out.1, hl⟩, out.2) else (none, out.2)
  else some (some ⟨header, [], by simp [not_not.mp hz]⟩, segs)

/-- `getMsg`; `none` while it waits. -/
def getMsg (malloc : Bool) (segs : List (List Byte)) : Option (Option Msg × List (List Byte)) :=
  (recv sizeofMsgHeader segs).bind fun out =>
    if out.1.length ≠ sizeofMsgHeader then some (none, out.2)
    else if malloc then getBody (.ofBytes out.1) out.2
    else some (none, out.2)

/-- `sendMsg`: what is handed to `send`. -/
def sendMsg (header : MsgHeader) (data : List Byte) : List (List Byte) :=
  MsgHeader.bytes { header with size := .ofNat 16 data.length } :: if data.length > 0 then [data] else []

def msgVersion : Nat := 1

/-- `camera_id`, with its terminator. -/
def cameraId : List Byte := [0x43, 0x31, 0x31, 0x31, 0x31, 0x31, 0x31, 0]

/-- The cases of `pollMsg`: what is sent for a message. `request` has what is
on the stack where the code sets nothing. -/
def answer (request : MsgHeader) (msg : Msg) : List (List Byte) :=
  if msg.header.id = MsgId.handshake.value then
    sendMsg msg.header (bytesOf 4 msgVersion) ++
      sendMsg { request with id := MsgId.getDataServerInfo.value, size := 0 } []
  else if msg.header.id = MsgId.getCameraInfo.value then sendMsg msg.header cameraId
  else []

/-- `pollMsg`: what is sent, and the segments left. It returns 0 also when there
was no message. -/
def pollMsg (request : MsgHeader) (malloc : Bool) (segs : List (List Byte)) :
    Option (List (List Byte) × List (List Byte)) :=
  (getMsg malloc segs).map fun out => ((out.1.map (answer request)).getD [], out.2)

/-- The results of successive calls of `f`, up to one that waits. -/
def calls {α : Type} (f : Bool → List (List Byte) → Option (α × List (List Byte))) :
    List Bool → List (List Byte) → List α
  | [], _ => []
  | malloc :: mallocs, segs =>
    match f malloc segs with
    | some out => out.1 :: calls f mallocs out.2
    | none => []

end XH.Impl.Camera
