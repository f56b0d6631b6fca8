import Xhome.Framework.Word

/-!
# Hold blocks on the VOD side (`wsgi_flv2ts.py`, `wsgi_flv2fragment.py`)

A block that yields no stream is fetched again in the ranges of `wsgi.conf`,
which has the same values in `[ts]` and `[sstr]`, to tell a hold block from a
blank one and from an answer that is no block.
-/

namespace XH.Impl.Vod

/-- A `Range:bytes=first-last` header; `last` may be left out. -/
structure Range where
  first : Nat
  last : Option Nat

def rangeFlv : Range := ⟨1400, none⟩
def rangeHold : Range := ⟨1627, some 1631⟩

/-- `symbol_flv=FLV` -/
def symbolFlv : List Byte := [0x46, 0x4c, 0x56]

/-- `symbol_hold=onair` -/
def symbolHold : List Byte := [0x6f, 0x6e, 0x61, 0x69, 0x72]

/-- The bytes of a file in a range. -/
def Range.bytes (r : Range) (file : List Byte) : List Byte :=
  match r.last with
  | some last => (file.drop r.first).take (last + 1 - r.first)
  | none => file.drop r.first

/-- The body of the answer: a range behind the end of the file is answered by a
`page` of the server. -/
def fetch (page : List Byte) (r : Range) (file : List Byte) : List Byte :=
  if r.first < file.length then r.bytes file else page

/-- `readlines()[0]` -/
def firstLine : List Byte → List Byte
  | [] => []
  | b :: bs => if b = 0x0a then [b] else b :: firstLine bs

inductive Verdict where
  | holdBlock
  | blankBlock
  | notFound
  deriving DecidableEq

/-- What `application` makes of a block that yields no stream. -/
def verdict (page file : List Byte) : Verdict :=
  if (firstLine (fetch page rangeFlv file)).take 3 = symbolFlv then
    if (firstLine (fetch page rangeHold file)).take 5 = symbolHold then .holdBlock else .blankBlock
  else .notFound

end XH.Impl.Vod
