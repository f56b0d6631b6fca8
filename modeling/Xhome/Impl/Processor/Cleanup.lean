import Xhome.Framework.Tree
import Xhome.Framework.Word

/-!
# Removing old block directories (`cutterprocessor/main.cpp`)

`work_path` holds the directories `{id / 1000}/{guid}` of the workers' blocks.
At the start the supervisor scans `work_path`; in each turn of the main loop
it counts down from the newest directory that is out of the cache until ten
names are missing (the test of `last_check_tick` in front of it has an empty
body). Both return the names they remove.
-/

namespace XH.Impl.Processor

/-- `(now_tick - id * 1000) > (cache_tick + 1000)` -/
def isOutdated (nowTick cacheTick id : Nat) : Bool := sub32 nowTick (u32 (id * 1000)) > u32 (cacheTick + 1000)

/-- The scan at the start, over the names of the directories. -/
def startupCleanup (nowTick cacheTick : Nat) (dirs : List Name) : List Name :=
  dirs.filter fun name =>
    let id := u32OfInt (atoi (stem name))
    id ≠ 0 && isOutdated nowTick cacheTick id

/-- `for (int iCounter(0); iCounter < 10; )`; `fuel` bounds the rounds. -/
def countDown : (fuel : Nat) → List Name → (id iCounter : Nat) → Option (List Name)
  | 0, _, _, _ => none
  | fuel + 1, dirs, id, iCounter =>
    if iCounter < 10 then
      if decimal id ∈ dirs then
        (countDown fuel (dirs.filter (· ≠ decimal id)) (sub32 id 1) iCounter).map (decimal id :: ·)
      else countDown fuel dirs (sub32 id 1) (iCounter + 1)
    else some []

/-- A pass of the main loop. -/
def periodicCleanup (fuel nowTick cacheTick : Nat) (dirs : List Name) : Option (List Name) :=
  countDown fuel dirs (sub32 (sub32 nowTick cacheTick / 1000) 1) 0

/-! ## Runs -/

/-- The directories of `work_path`, and the readings of the clock. -/
structure WorkPath where
  dirs : List Name
  now : Nat
  scanTick : Nat
  /-- `now_tick` of the last pass. -/
  passTick : Option Nat

/-- `work_path` behind the scan at the start. -/
def scannedPath (nowTick cacheTick : Nat) (dirs : List Name) : WorkPath where
  dirs := dirs.filter (· ∉ startupCleanup nowTick cacheTick dirs)
  now := nowTick
  scanTick := nowTick
  passTick := none

inductive CleanupEvent where
  /-- A worker creates the directory of the block ids from `id * 1000` on. -/
  | create (now id : Nat)
  | pass (fuel now : Nat)

/-- The clock is an `unsigned int` that does not run backwards. -/
def cleanupStep (cacheTick : Nat) (s : WorkPath) : CleanupEvent → Option WorkPath
  | .create now id => if s.now ≤ now ∧ now < 2 ^ 32 then some { s with dirs := decimal id :: s.dirs, now } else none
  | .pass fuel now =>
    if s.now ≤ now ∧ now < 2 ^ 32 then
      (periodicCleanup fuel now cacheTick s.dirs).map fun removed =>
        { s with dirs := s.dirs.filter (· ∉ removed), now, passTick := some now }
    else none

end XH.Impl.Processor
