import Xhome.Framework.Reach
import Xhome.Impl.Processor.Channel

/-!
# The supervisor's main loop (`cutterprocessor/main.cpp`, Linux)

The loop reads the channel list and starts a worker for each new line, closes
the workers whose line is gone, and restarts the workers that exit. A step is
one line of the list, one worker looked at in the close phase, or one
`waitpid`; what it learns from the system is an `Answer`. A step is `none`
only if it uses an index outside `hProcesses`. The assertions are compiled
out: with them the process ends where the table is full.
-/

namespace XH.Impl.Processor

abbrev Pid := Nat

def csMaxProcessCount : Nat := 640

/-- An entry of `workers`: the command line, the slot in `hProcesses`, the guid. -/
structure Worker where
  cmd : Text
  slot : Nat
  guid : Text
  deriving DecidableEq

/-- What the supervisor asks of the system. -/
inductive Call where
  /-- `fork` and, in the child, `exec_line`. -/
  | start (cmd : Text) (pid : Pid)
  | kill (pid : Pid)
  deriving DecidableEq

/-- Where the loop stands. -/
inductive Phase where
  /-- At the opening of the list. -/
  | opening
  /-- Reading the list, with the lines left. -/
  | reading (rest : List Text)
  /-- In the close phase, with the keys the iterator has yet to visit. -/
  | closing (rest : List Text)
  /-- At the label `watching`. -/
  | watching
  /-- In the loop of `waitpid`, with `wait_ticks`. -/
  | waiting (ticks : Nat)
  deriving DecidableEq

structure Supervisor where
  phase : Phase
  workers : List Worker
  channelIdSet : List Text
  hProcesses : List Pid
  processCount : Nat
  channelList : List Text
  workPath : Text
  /-- The list last opened. -/
  content : Text
  /-- The calls made so far, the last one first. -/
  calls : List Call
  /-- The children that have not been waited for. -/
  children : List (Pid × Text)

/-- What the system answers; a step looks at what it asks for. -/
structure Answer where
  /-- The content of the channel list, or `none` if it cannot be opened. -/
  list : Option Text
  /-- The process that `fork` starts, or `none` if it fails. -/
  fork : Option Pid
  /-- The child that `waitpid` found stopped. -/
  stopped : Option Pid

def main (conf : Config) : Supervisor :=
  { phase := .opening
    workers := []
    channelIdSet := []
    hProcesses := List.replicate csMaxProcessCount 0
    processCount := 0
    channelList := []
    workPath := conf.workDir
    content := []
    calls := []
    children := [] }

/-! ## The table -/

/-- `hProcesses[i] = v` -/
def store (h : List Pid) (i : Nat) (v : Pid) : Option (List Pid) := if i < h.length then some (h.set i v) else none

/-- `workers[w.cmd] = w`; the entries are in the order of their keys. -/
def assign (w : Worker) : List Worker → List Worker
  | [] => [w]
  | v :: ws => if v.cmd = w.cmd then w :: ws else if w.cmd < v.cmd then w :: v :: ws else v :: assign w ws

/-- `for (; i < csMaxProcessCount - 1; ++i) if (hProcesses[i] == 0) …`: the slot
that is taken; `tries` counts the slots left. -/
def freeSlot (h : List Pid) : (tries i : Nat) → Option (Option Nat)
  | 0, _ => some none
  | tries + 1, i => do
    let p ← h[i]?
    if p = 0 then some (some i) else freeSlot h tries (i + 1)

/-- `if (slot > x) slot--` over all workers. -/
def renumber (x : Nat) (ws : List Worker) : List Worker :=
  ws.map fun w => if x < w.slot then { w with slot := w.slot - 1 } else w

/-- `do { hProcesses[x] = hProcesses[x + 1]; ++x; } while (hProcesses[x] != 0 && x < csMaxProcessCount - 1)`;
`tries` bounds the rounds. -/
def shiftDown : (tries : Nat) → List Pid → Nat → Option (List Pid × Nat)
  | 0, _, _ => none
  | tries + 1, h, x => do
    let p ← h[x + 1]?
    let h ← store h x p
    let x := x + 1
    let q ← h[x]?
    if q ≠ 0 ∧ x < csMaxProcessCount - 1 then shiftDown tries h x else some (h, x)

/-- `if (x == csMaxProcessCount - 1) hProcesses[csMaxProcessCount - 1] = 0` -/
def freeLast (h : List Pid) (x : Nat) : Option (List Pid) :=
  if x = csMaxProcessCount - 1 then store h (csMaxProcessCount - 1) 0 else some h

/-- The worker at `x` leaves the table, as in the close phase and in `ReStartProcess`. -/
def dropWorker (s : Supervisor) (w : Worker) (x : Nat) : Option Supervisor := do
  let workers := if x + 1 < s.workers.length then renumber x s.workers else s.workers
  let (h, y) ← shiftDown csMaxProcessCount s.hProcesses x
  let h ← freeLast h y
  some { s with workers := workers.filter (·.cmd ≠ w.cmd), hProcesses := h }

/-- `fork` in the parent: the child runs `cmd`. -/
def fork (s : Supervisor) (cmd : Text) (pid : Pid) : Supervisor :=
  { s with calls := .start cmd pid :: s.calls, children := (pid, cmd) :: s.children }

/-- `kill(pid, SIGTERM)` -/
def kill (s : Supervisor) (pid : Pid) : Supervisor := { s with calls := .kill pid :: s.calls }

/-! ## Reading the list -/

variable (ops : PathOps) (conf : Config)

/-- The lines that `getline` finds until the end of the file. -/
def getlines (content : Text) : List Text := content.splitOn '\n'

/-- A command line that has no worker yet; `true` if it has one afterwards. -/
def startWorker (s : Supervisor) (cmd guid : Text) : Option Pid → Option (Supervisor × Bool)
  | none => some (s, false)
  | some pid => do
    let s := fork s cmd pid
    match ← freeSlot s.hProcesses (csMaxProcessCount - 1) 0 with
    | some i =>
      let h ← store s.hProcesses i pid
      some ({ s with
        hProcesses := h
        workers := assign ⟨cmd, i, guid⟩ s.workers
        channelIdSet := guid :: s.channelIdSet }, true)
    | none => some (kill s pid, false)

/-- A channel that is no repetition, by its command line. -/
def acceptChannel (s : Supervisor) (cmd guid : Text) (forked : Option Pid) : Option Supervisor := do
  let s := { s with channelList := s.channelList ++ [cmd] }
  if s.workers.any (·.cmd = cmd) then some { s with processCount := s.processCount + 1 } else
  let (s, ok) ← startWorker s cmd guid forked
  some (if ok then { s with processCount := s.processCount + 1 } else s)

/-- One turn of the loop over the lines. -/
def readLine (s : Supervisor) (line : Text) (forked : Option Pid) : Option Supervisor :=
  if isSkipped line then some s else
  let ch := parseChannel line
  let workPath := ops.append s.workPath ch.guid
  let cmd := cmdLine conf workPath ch
  let s := { s with workPath := ops.removeLeaf workPath }
  if cmd ∈ s.channelList ∨ ch.guid ∈ s.channelIdSet then some s else acceptChannel s cmd ch.guid forked

/-! ## Closing and watching -/

/-- The iterator of the close phase at the worker of `key`. -/
def closeDeleted (s : Supervisor) (key : Text) : Option Supervisor :=
  match s.workers.find? (·.cmd = key) with
  | none => some s
  | some w =>
    if w.cmd ∈ s.channelList then some s else do
      let pid ← s.hProcesses[w.slot]?
      dropWorker (kill s pid) w w.slot

/-- `ReStartProcess(x)` -/
def reStartProcess (s : Supervisor) (x : Nat) (forked : Option Pid) : Option Supervisor :=
  match s.workers.find? (·.slot = x) with
  | none => some s
  | some w =>
    match forked with
    | none => (dropWorker s w x).map fun s => { s with processCount := s.processCount - 1 }
    | some pid => do
      let h ← store s.hProcesses x pid
      some (fork { s with hProcesses := h } w.cmd pid)

/-- `for (int nIdx = 0; nIdx < processCount; ++nIdx) if (hProcesses[nIdx] == stopedID) …`: the
index that is found; `tries` counts the indices left. -/
def findProcess (h : List Pid) (pid : Pid) : (tries nIdx : Nat) → Option (Option Nat)
  | 0, _ => some none
  | tries + 1, nIdx => do
    let p ← h[nIdx]?
    if p = pid then some (some nIdx) else findProcess h pid tries (nIdx + 1)

/-- `waitpid` has found a stopped child. -/
def onStopped (s : Supervisor) (pid : Pid) (forked : Option Pid) : Option Supervisor := do
  let s := { s with children := s.children.filter (·.1 ≠ pid) }
  match ← findProcess s.hProcesses pid s.processCount 0 with
  | some x => reStartProcess s x forked
  | none => some s

/-- One step of the main loop. -/
def step (s : Supervisor) (a : Answer) : Option Supervisor :=
  match s.phase with
  | .opening =>
    match a.list with
    | none => some { s with phase := .watching }
    | some content =>
      some { s with
        phase := .reading (getlines content)
        content := content
        channelList := []
        channelIdSet := []
        processCount := 0 }
  | .reading [] => some { s with phase := .closing (s.workers.map (·.cmd)) }
  | .reading (line :: rest) => readLine ops conf { s with phase := .reading rest } line a.fork
  | .closing [] => some { s with phase := .watching }
  | .closing (key :: rest) => closeDeleted { s with phase := .closing rest } key
  | .watching => some { s with phase := if 0 < s.processCount then .waiting 5 else .opening }
  | .waiting 0 => some { s with phase := .opening }
  | .waiting (ticks + 1) =>
    match a.stopped with
    | some pid => onStopped s pid a.fork
    | none => some { s with phase := .waiting ticks }

end XH.Impl.Processor
