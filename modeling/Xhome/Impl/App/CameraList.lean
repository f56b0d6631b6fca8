import Xhome.Framework.Lines
import Xhome.Framework.Tree
import Xhome.Framework.Utf8

/-!
# The phone's list of cameras (`app/XhomeCamera`)

`CameraListActivity` keeps a line for each camera in the file `xhome`, its id and
the address of its picture. A string is a list of UTF-16 units; `none` is the file
that has been deleted.
-/

namespace XH.Impl.App

abbrev Str := List CodeUnit

/-- A string of ASCII characters. -/
def str (s : List Char) : Str := s.map fun c => .ofNat 16 c.toNat

def comma : CodeUnit := 0x2C
def cr : CodeUnit := 0x0D
def lf : CodeUnit := 0x0A

/-- `Constants.SEPARATE` -/
def separate : Str := [comma]

/-- The file `Constants.FILE_NAME`. -/
abbrev Store := Option (List Byte)

/-! ## `StringUtils` and `FileUtils` -/

/-- `getCameraName`; `none` is the exception of `[0]` on an array without elements. -/
def getCameraName (item : Str) : Option Str := (split comma item).head?

/-- `generateScreenUrl`: `SCREEN_URL` with `DOMAIN`, `DEFAULT_WITH`,
`DEFAULT_HEIGHT`, the id, the time and `DEFAULT_SCREEN_FORMAT`. -/
def generateScreenUrl (cid : Str) (timestamp : Nat) : Str :=
  str "http://42.159.6.169/image/320/240/".toList ++ cid ++ str "/".toList ++ str (decimal timestamp) ++ str ".jpeg".toList

/-- `saveContentToLocal`: the file is opened with `MODE_APPEND`. -/
def saveContentToLocal (f : Store) (content : Str) : Store :=
  some (f.getD [] ++ Utf8.getBytes content ++ Utf8.getBytes [cr, lf])

/-- `readFileFromData`; a file that is not there gives the empty list. -/
def readFileFromData : Store → List Str
  | none => []
  | some bs => readLines cr lf false [] (Utf8.newString bs)

/-- `cleanLocalFiles` -/
def cleanLocalFiles (_ : Store) : Store := none

/-! ## `CameraListActivity` -/

/-- `cid + Constants.SEPARATE + screenUrl` -/
def itemOf (cid : Str) (timestamp : Nat) : Str := cid ++ separate ++ generateScreenUrl cid timestamp

/-- The positive button of `initDialog`. -/
def addCamera (f : Store) (cid : Str) (timestamp : Nat) : Store := saveContentToLocal f (itemOf cid timestamp)

/-- The loop of `reloadCameraList`; `times` gives the clock for each item. With
`false` an exception has ended it. -/
def reloadItems (times : Nat → Nat) : Nat → List Str → Store → Store × Bool
  | _, [], f => (f, true)
  | i, item :: items, f =>
    match (split comma item).head? with
    | none => (f, false)
    | some cid => reloadItems times (i + 1) items (saveContentToLocal f (itemOf cid (times i)))

def reloadCameraList (times : Nat → Nat) (f : Store) : Store × Bool :=
  let items := readFileFromData f
  if items.length = 0 then (f, true) else reloadItems times 0 items (cleanLocalFiles f)

end XH.Impl.App
