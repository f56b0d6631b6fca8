import Xhome.Impl.Cutter.System

/-!
# The worker's main function (`cutterworker/main.cpp`)

What `_tmain` makes of its arguments, and the reader and the writer it starts.
-/

namespace XH.Impl.Cutter

/-- `interval`: the number in `strArg5`, or 5 for 0. -/
def acceptedInterval (strArg5 : Name) : Nat :=
  let interval := u32OfInt (atoi strArg5)
  if interval ≤ 0 then 5 else interval

/-- `piece_life_span`: the number in `strArg3`, or 30 if that is 0 or above 30 days. -/
def acceptedLifeSpan (strArg3 : Name) : Nat :=
  let pieceLifeSpan := u32OfInt (atoi strArg3)
  if pieceLifeSpan ≤ 0 ∨ pieceLifeSpan > 2592000 then 30 else pieceLifeSpan

/-- `CStreamReader reader(…)` and `reader.Start()`, with the two settings of the
`media` section and `report_status_period`; `none` if `Init` does not return. -/
def tmain (env : Env) (fuel : Nat) (u : Uninit) (strArg1 : List Char) (dir : Path) (guid strArg3 strArg5 : Name)
    (cutWithKf needModifyTs : Bool) (reportStatusPeriod : Nat) (disk : Tree) : Option System :=
  (start env fuel u dir guid (acceptedInterval strArg5) (acceptedLifeSpan strArg3) reportStatusPeriod disk).andThen
    fun mediaTs w => some (startSystem (startReader strArg1 cutWithKf needModifyTs (acceptedInterval strArg5) mediaTs) w)

end XH.Impl.Cutter
