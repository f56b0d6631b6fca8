import Mathlib.Logic.Function.Basic
import Xhome.Impl.Control.Pipeline

/-!
# The devices of the control server (`XHomeChannelGroup`, `ServerHandler`)

`XHomeChannelGroup` maps serial numbers to channels and puts its listener
`remover` on the close future of every channel it adds; `listeners` counts how
often the listener is there. A future that is done runs a listener at once and
does not take one off. `closed` says which channels' close futures are done.
-/

namespace XH.Impl.Control

abbrev JavaString := List CodeUnit

/-- The characters of a Java literal that has only ASCII. -/
def literal (s : String) : JavaString := s.toList.map fun c => .ofNat 16 c.toNat

structure DeviceMetadata where
  serialNum : JavaString
  deviceModel : JavaString
  deriving Repr, DecidableEq

structure ChannelGroup where
  clientChannels : JavaString → Option ChannelId
  attachment : ChannelId → Option DeviceMetadata
  listeners : ChannelId → Nat
  closed : ChannelId → Bool

namespace ChannelGroup

def initial : ChannelGroup := ⟨fun _ => none, fun _ => none, fun _ => 0, fun _ => false⟩

def find (g : ChannelGroup) (key : JavaString) : Option ChannelId := g.clientChannels key

def containsKey (g : ChannelGroup) (key : JavaString) : Bool := (g.clientChannels key).isSome

def setAttachment (g : ChannelGroup) (c : ChannelId) (d : DeviceMetadata) : ChannelGroup :=
  { g with attachment := Function.update g.attachment c (some d) }

/-- `c.getCloseFuture().removeListener(remover)` -/
def removeListener (g : ChannelGroup) (c : ChannelId) : ChannelGroup :=
  if g.closed c then g else { g with listeners := Function.update g.listeners c (g.listeners c - 1) }

/-- `XHomeChannelGroup.remove` -/
def remove (g : ChannelGroup) (key : JavaString) : ChannelGroup :=
  match g.clientChannels key with
  | none => g
  | some c => removeListener { g with clientChannels := Function.update g.clientChannels key none } c

/-- `remover.operationComplete`: a channel without attachment is a null pointer
exception, which the future catches. -/
def remover (g : ChannelGroup) (c : ChannelId) : ChannelGroup :=
  match g.attachment c with
  | none => g
  | some deviceData => g.remove deviceData.serialNum

/-- `channel.getCloseFuture().addListener(remover)` -/
def addListener (g : ChannelGroup) (c : ChannelId) : ChannelGroup :=
  if g.closed c then g.remover c else { g with listeners := Function.update g.listeners c (g.listeners c + 1) }

/-- `XHomeChannelGroup.add` -/
def add (g : ChannelGroup) (key : JavaString) (c : ChannelId) : ChannelGroup :=
  match g.clientChannels key with
  | none => addListener { g with clientChannels := Function.update g.clientChannels key (some c) } c
  | some _ => g

/-- The listeners of a close future that is done. -/
def notifyListeners (g : ChannelGroup) (c : ChannelId) : Nat → ChannelGroup
  | 0 => g
  | n + 1 => notifyListeners (g.remover c) c n

/-- A channel is closed once. -/
def close (g : ChannelGroup) (c : ChannelId) : ChannelGroup :=
  if g.closed c then g
  else
    let g' := notifyListeners { g with closed := Function.update g.closed c true } c (g.listeners c)
    { g' with listeners := Function.update g'.listeners c 0 }

/-- The registration in `ServerHandler.messageReceived`. -/
def regist (g : ChannelGroup) (c : ChannelId) (deviceData : DeviceMetadata) : ChannelGroup :=
  let g := g.setAttachment c deviceData
  let g := if g.containsKey deviceData.serialNum then g.remove deviceData.serialNum else g
  g.add deviceData.serialNum c

end ChannelGroup

/-! ## ServerHandler -/

/-- `CommandType` -/
inductive CommandType where
  | rotate
  | rotateResp
  | stopRotate
  | stopRotateResp
  | regist
  | heardbeat
  deriving Repr, DecidableEq

def CommandType.getValue : CommandType → BitVec 32
  | .rotate => 0
  | .rotateResp => 1
  | .stopRotate => 2
  | .stopRotateResp => 3
  | .regist => 4
  | .heardbeat => 5

/-- `toString()` of an element; an object of another class is never decoded. -/
def Datum.toJavaString : Datum → Except Fault JavaString
  | .integer v => .ok (literal (toString v.toInt))
  | .long v => .ok (literal (toString v.toInt))
  | .string s => .ok s
  | .other | .null => .error .nullPointer

/-- `msg.getData().get(i)` -/
def Message.get (msg : Message) (i : Nat) : Except Fault Datum :=
  match msg.data with
  | none => .error .nullPointer
  | some data =>
    match data[i]? with
    | some d => .ok d
    | none => .error .indexOutOfBounds

/-- What `ServerHandler` writes: the message to the target channel and the
answer to where it came from. -/
structure Written where
  target : Option (ChannelId × Message)
  answer : Option (List Datum)
  deriving Repr, DecidableEq

def Written.nothing : Written := ⟨none, none⟩

/-- `ROTATE` and `STOP_ROTATE`, which have the device id at `index`. -/
def forward (g : ChannelGroup) (msg : Message) (type : BitVec 32) (index : Nat) : Except Fault Written := do
  let deviceId ← (← msg.get index).toJavaString
  match g.find deviceId with
  | some targetChannel =>
    return ⟨some (targetChannel, msg), some [.integer type, .string (literal "Send done")]⟩
  | none => return ⟨none, some [.integer type, .string (literal "Send failed")]⟩

/-- The metadata of a `REGIST` message. -/
def deviceDataOf (msg : Message) : Except Fault DeviceMetadata := do
  let serialNum ← (← msg.get 1).toJavaString
  let deviceModel ← (← msg.get 2).toJavaString
  return ⟨serialNum, deviceModel⟩

/-- The branches of `ServerHandler.messageReceived`. -/
def onMessage (g : ChannelGroup) (c : ChannelId) (msg : Message) : Except Fault (ChannelGroup × Written) := do
  match msg.messageType with
  | none => throw .nullPointer
  | some type =>
    if type = CommandType.rotate.getValue then
      return (g, ← forward g msg type 4)
    else if type = CommandType.rotateResp.getValue then
      let _ ← msg.get 1
      return (g, .nothing)
    else if type = CommandType.stopRotate.getValue then
      return (g, ← forward g msg type 1)
    else if type = CommandType.stopRotateResp.getValue then
      let _ ← msg.get 1
      return (g, .nothing)
    else if type = CommandType.regist.getValue then
      return (g.regist c (← deviceDataOf msg), .nothing)
    else
      return (g, .nothing)

inductive ServerEvent where
  | message (c : ChannelId) (msg : Message)
  | close (c : ChannelId)

/-- `ServerHandler.messageReceived`, with `exceptionCaught`, which closes the
channel, and the closing of a channel. -/
def serverStep (g : ChannelGroup) : ServerEvent → ChannelGroup × Written
  | .message c msg =>
    match onMessage g c msg with
    | .ok r => r
    | .error _ => (g.close c, .nothing)
  | .close c => (g.close c, .nothing)

def serverRun (g : ChannelGroup) (es : List ServerEvent) : ChannelGroup := es.foldl (fun g e => (serverStep g e).1) g

end XH.Impl.Control
