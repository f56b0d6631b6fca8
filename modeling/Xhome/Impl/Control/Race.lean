import Xhome.Framework.Reach
import Xhome.Impl.Control.Registry

/-!
# A registration while another channel closes

Channels belong to different I/O threads. The registration of `c₂` in
`ServerHandler.messageReceived` and the closing of `c₁` are taken apart into
their atomic steps: `registering` and `closing` say which step comes next.
-/

namespace XH.Impl.Control

/-- The next step of a registration. -/
inductive Registering where
  | setAttachment
  | containsKey
  | remove
  | add
  | done
  deriving Repr, DecidableEq

/-- The next step of closing a channel: after `markClosed` the listeners that
were on its close future run, `n` of them from `remover n` on, each reading the
attachment and then removing the key it found. -/
inductive Closing where
  | markClosed
  | remover (n : Nat)
  | remove (key : JavaString) (n : Nat)
  deriving Repr, DecidableEq

structure Race where
  group : ChannelGroup
  registering : Registering
  closing : Closing

/-- Both have come to their end. -/
def Race.finished (r : Race) : Prop := r.registering = .done ∧ r.closing = .remover 0

inductive Party where
  | register
  | close
  deriving Repr, DecidableEq

section

variable (c₁ c₂ : ChannelId) (deviceData : DeviceMetadata)

def registerStep (r : Race) : Option Race :=
  match r.registering with
  | .setAttachment =>
    some { r with group := r.group.setAttachment c₂ deviceData, registering := .containsKey }
  | .containsKey =>
    some { r with registering := if r.group.containsKey deviceData.serialNum then .remove else .add }
  | .remove => some { r with group := r.group.remove deviceData.serialNum, registering := .add }
  | .add => some { r with group := r.group.add deviceData.serialNum c₂, registering := .done }
  | .done => none

def closeStep (r : Race) : Option Race :=
  match r.closing with
  | .markClosed =>
    if r.group.closed c₁ then some { r with closing := .remover 0 }
    else some { r with
      group := { r.group with closed := Function.update r.group.closed c₁ true }
      closing := .remover (r.group.listeners c₁) }
  | .remover 0 => none
  | .remover (n + 1) =>
    match r.group.attachment c₁ with
    | none => some { r with closing := .remover n }
    | some d => some { r with closing := .remove d.serialNum n }
  | .remove key n => some { r with group := r.group.remove key, closing := .remover n }

def raceStep (r : Race) : Party → Option Race
  | .register => registerStep c₂ deviceData r
  | .close => closeStep c₁ r

end

end XH.Impl.Control
