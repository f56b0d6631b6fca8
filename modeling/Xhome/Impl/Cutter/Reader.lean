import Xhome.Impl.Cutter.Block

/-!
# The stream reader (`CStreamReader`)

`on_content` is run with the bytes of one receive completion. It collects them
in `reading_buffer_ptr_` until the request is filled, takes one step of the
parser (`stat_`, `reading_stat_`) and asks for the next bytes; its effects are
the new object and the calls it makes on the writer, in order. Buffers are
values: a posted piece is not changed by the reader any more, and the tag
header that `HandleUpdateHeader` rewrites is only shared with pieces posted
before it. Log output and `got_first_data_piece_`, which is never read, are
left out.
-/

namespace XH.Impl.Cutter

inductive ReaderStat where
  | needHead
  | needFlvData
  deriving DecidableEq

inductive ReadingStat where
  | head
  | flvTaghead
  | flvTagbody
  deriving DecidableEq

/-- The outstanding operation of `http_client_`; a receive writes at an offset
of `reading_buffer_ptr_` and asks for `reading_size_` bytes. -/
inductive HttpOp where
  | idle
  | opening
  | receiving (writePos : Nat)
  deriving DecidableEq

structure Reader where
  url : List Char
  needCutWithKf : Bool
  needModifyTs : Bool
  cutScale : Nat
  stat : ReaderStat
  readingStat : ReadingStat
  readingBuffer : Buffer
  readingSize : Nat
  op : HttpOp
  piece : Piece
  curFlvTagType : Nat
  flvTagBegTimestamp : Nat
  flvTagTimestamp : Nat
  curFlvTagTs : Nat
  curPieceTs : Nat
  gotAudioHead : Bool
  gotVideoHead : Bool
  isHeaderOver : Bool
  gotSeekPoint : Bool
  seekPointPos : Nat
  cutWithKf : Bool
  shouldCutCount : Int
  isReaderReady : Bool
  peddingCutDownTime : Int
  startCutDownTime : Int
  flvTagTsDelta : Nat
  gotFirstDataTag : Bool
  aacSequenceHeader : Option (Buffer × Buffer)
  avcSequenceHeader : Option (Buffer × Buffer)
  deriving DecidableEq

/-- A call on `writer_`. -/
inductive Call where
  | asyncWritePiece (piece : Piece) (seekPointPos mediaTs : Nat)
  | asyncUpdateHeader (head body : Buffer)
  | readerError
  deriving DecidableEq

def csPeddingCutDownTime : Int := 10
def csStartCutDownTime : Nat := 3

/-- The restart sentinel of `cur_piece_ts_`. -/
def noPieceTs : Nat := 0xffffffff

/-- The limit on `reading_size_`. -/
def maxReadingSize : Nat := 1024 * 1024 * 10

/-- `async_begin`. -/
def asyncBegin (r : Reader) : Reader :=
  { r with
    isReaderReady := false
    startCutDownTime := if r.cutScale / 1000 > csStartCutDownTime then 1 else csStartCutDownTime }

/-- `do_begin`. -/
def doBegin (r : Reader) : Reader :=
  if r.url ≠ [] then
    { r with piece := [], stat := .needHead, readingStat := .head, op := .opening }
  else { r with op := .idle }

/-- A new buffer of `reading_size_` bytes and a receive into it. -/
def receive (r : Reader) : Reader :=
  { r with readingBuffer := List.replicate r.readingSize 0, op := .receiving 0 }

/-- `on_http_open`; `ok` if there is no error and the response code is 200. -/
def onHttpOpen (r : Reader) (ok : Bool) : Reader :=
  if ok then
    receive { r with
      isReaderReady := true, peddingCutDownTime := csPeddingCutDownTime
      readingSize := flvFileheaderTSize }
  else asyncBegin { r with op := .idle }

/-- The reader after one step of the parser, the calls made, and whether it
goes on receiving (`false` after a `return` from a restart). -/
structure Out where
  reader : Reader
  calls : List Call
  resume : Bool

/-- A restart from inside the parser. -/
def restart (r : Reader) : Out := ⟨asyncBegin r, [.readerError], false⟩

/-! ## `STAT_NEED_HEAD` -/

/-- `!strncmp(signature, "FLV", 3)`. -/
def isFlv (b : Buffer) : Bool := b.take 3 == [0x46, 0x4c, 0x56]

/-- `case READING_HEAD`. -/
def needHeadHead (r : Reader) : Out :=
  if isFlv r.readingBuffer then
    ⟨{ r with
        gotAudioHead := false, gotVideoHead := false, gotSeekPoint := false, seekPointPos := 0
        cutWithKf := r.needCutWithKf, shouldCutCount := 0, isHeaderOver := false
        gotFirstDataTag := false, flvTagTsDelta := 0, flvTagBegTimestamp := 0
        piece := r.piece ++ [r.readingBuffer]
        readingSize := flvTagheaderTSize, readingStat := .flvTaghead }, [], true⟩
  else restart r

/-- The tag gets the timestamp `ts`, in its header too if timestamps are modified. -/
def assignTs (r : Reader) (ts delta : Nat) : Reader :=
  { r with
    flvTagTimestamp := ts, flvTagTsDelta := delta
    readingBuffer := if r.needModifyTs then setTagTs r.readingBuffer ts else r.readingBuffer }

/-- A timestamp wraps at `2^31`. -/
def wrapTs (ts : Nat) : Nat := if ts ≥ 2 ^ 31 then ts % 2 ^ 31 else ts

def setTs (r : Reader) (ts delta : Nat) : Reader := { r with flvTagTimestamp := ts, flvTagTsDelta := delta }

def gotData (r : Reader) : Reader := { r with gotFirstDataTag := true }

/-- The first data tag in `STAT_NEED_HEAD`: behind the last timestamp the
timeline goes on half a second later. -/
def firstDataTag (r : Reader) (tagTs : Nat) : Reader :=
  let ts := wrapTs (u32 (r.flvTagTimestamp + 500))
  gotData (if tagTs < r.flvTagTimestamp then assignTs r ts (sub32 ts tagTs)
    else setTs r tagTs r.flvTagTsDelta)

/-- `is_header_over_ = true`, and the slot of the tag. -/
def setHeaderOver (r : Reader) : Reader :=
  { r with isHeaderOver := true, curFlvTagTs := r.flvTagTimestamp / r.cutScale }

/-- The end of the header phase at a tag with a timestamp. -/
def headerOver (r : Reader) (tagTs : Nat) : Reader :=
  setHeaderOver (if r.gotFirstDataTag then r else firstDataTag r tagTs)

/-- Appends the tag header and asks for the body. -/
def pushTagHead (r : Reader) : Reader :=
  { r with
    piece := r.piece ++ [r.readingBuffer]
    readingSize := tagDatasize r.readingBuffer + flvPrevioustagsizeSize
    readingStat := .flvTagbody }

/-- `cur_flv_tag_type_` and `flv_tag_beg_timestamp_`. -/
def beginTag (r : Reader) (tagTs : Nat) : Reader :=
  { r with
    curFlvTagType := tagType r.readingBuffer
    flvTagBegTimestamp := if r.flvTagBegTimestamp = 0 then tagTs else r.flvTagBegTimestamp }

/-- `case READING_FLV_TAGHEAD`. -/
def needHeadTaghead (r : Reader) : Out :=
  let tagTs := getTagTs r.readingBuffer
  if tagTs > 0 ∧ (r.gotAudioHead ∨ r.gotVideoHead) then
    ⟨pushTagHead (headerOver (beginTag r tagTs) tagTs), [], true⟩
  else ⟨pushTagHead (beginTag r tagTs), [], true⟩

/-- `set_tag_ts(piece_ptr_->back(), 0)`. -/
def zeroLastTs (p : Piece) : Piece := p.dropLast ++ (p.getLast?.map (setTagTs · 0)).toList

/-- What the body of a tag of the header phase changes, and `need_drop_tag`. -/
def headTag (r : Reader) : Reader × Bool :=
  if r.curFlvTagType = flvAudiodata then
    if isAac r.readingBuffer then
      if isSequenceHeader r.readingBuffer then
        ({ r with gotAudioHead := true, piece := zeroLastTs r.piece }, false)
      else (r, true)
    else ({ r with gotAudioHead := true }, true)
  else if r.curFlvTagType = flvVideodata then
    if isAvc r.readingBuffer then
      if isSequenceHeader r.readingBuffer then
        ({ r with gotVideoHead := true, piece := zeroLastTs r.piece }, false)
      else (r, true)
    else ({ r with gotVideoHead := true, cutWithKf := false }, true)
  else (r, false)

/-- The tag with or without its body, by `need_drop_tag`. -/
def keepTag (r : Reader) (needDropTag : Bool) : Reader :=
  { r with piece := if needDropTag then r.piece.dropLast else r.piece ++ [r.readingBuffer] }

/-- Asks for the next tag header. -/
def nextTag (r : Reader) : Reader := { r with readingSize := flvTagheaderTSize, readingStat := .flvTaghead }

/-- The header piece is posted without the tag that ended the header phase,
which begins the first data piece. -/
def postHeaderOver (r : Reader) : Reader :=
  { r with
    curPieceTs := r.curFlvTagTs, stat := .needFlvData
    piece := r.piece.getLast?.toList ++ [r.readingBuffer]
    cutWithKf := if r.gotVideoHead then r.cutWithKf else false }

/-- The header piece is posted with both heads. -/
def postHeads (r : Reader) : Reader := { r with stat := .needFlvData, piece := [] }

/-- `case READING_FLV_TAGBODY`. -/
def needHeadTagbody (r : Reader) : Out :=
  if r.isHeaderOver then
    ⟨nextTag (postHeaderOver r), [.asyncWritePiece r.piece.dropLast 0 0], true⟩
  else
    let r := keepTag (headTag r).1 (headTag r).2
    if r.gotAudioHead ∧ r.gotVideoHead then
      ⟨nextTag (postHeads r), [.asyncWritePiece r.piece 0 0], true⟩
    else ⟨nextTag r, [], true⟩

/-! ## `STAT_NEED_FLV_DATA` -/

/-- The first data tag of the connection: the offset of its timestamps. -/
def beginData (r : Reader) (tagTs : Nat) : Reader :=
  let ts := u32 (r.flvTagTimestamp + 500)
  if r.gotFirstDataTag then r
  else gotData (if tagTs < r.flvTagTimestamp then setTs r ts (sub32 ts tagTs) else r)

/-- The timestamp given to an audio or video tag. -/
def stampTag (r : Reader) (tagTs : Nat) : Reader :=
  if r.flvTagTsDelta > 0 then
    let ts := if u32 (tagTs + r.flvTagTsDelta) = r.flvTagTimestamp then u32 (r.flvTagTimestamp + 1)
      else u32 (tagTs + r.flvTagTsDelta)
    if ts ≥ 2 ^ 31 then assignTs r (ts % 2 ^ 31) (sub32 (ts % 2 ^ 31) tagTs)
    else assignTs r ts r.flvTagTsDelta
  else if tagTs = r.flvTagTimestamp then assignTs r (u32 (tagTs + 1)) r.flvTagTsDelta
  else setTs r tagTs r.flvTagTsDelta

/-- The slot of the tag, with `cur_piece_ts_` set if it is the sentinel. -/
def slotTag (r : Reader) : Reader :=
  let cur := r.flvTagTimestamp / r.cutScale
  { r with curFlvTagTs := cur, curPieceTs := if r.curPieceTs = noPieceTs then cur else r.curPieceTs }

/-- A slot advance: a plain cut, or one more cut to make at a key frame. -/
def advanceSlot (r : Reader) : Reader × List Call :=
  if r.cutWithKf then
    ({ r with curPieceTs := r.curFlvTagTs, shouldCutCount := r.shouldCutCount + 1 }, [])
  else
    ({ r with piece := [], curPieceTs := r.curFlvTagTs, gotSeekPoint := false, seekPointPos := 0 },
      [.asyncWritePiece r.piece r.seekPointPos r.flvTagTimestamp])

/-- `ts_delta` of a tag, and of a tag behind the wrap at `2^31`. -/
def tsDelta (r : Reader) : Int := i32 (sub32 r.curFlvTagTs r.curPieceTs)
def wrapDelta (r : Reader) : Int := i32 (sub32 (u32 (r.flvTagTimestamp + 2 ^ 31) / r.cutScale) r.curPieceTs)

/-- What the slot of an audio or video tag leads to; `none` is the restart
after a big gap. -/
def cutTag (r : Reader) : Option (Reader × List Call) :=
  if tsDelta r > 0 then some (advanceSlot r)
  else if tsDelta r < 0 then
    if r.curPieceTs > 429490 ∧ r.curFlvTagTs < 10 then
      if wrapDelta r > 0 then some (advanceSlot r) else some (r, [])
    else if r.curFlvTagTs ≠ 0 ∧ tsDelta r < -2 then none
    else some (r, [])
  else some (r, [])

/-- `seek_point_pos_` counts the bytes before the first key frame. -/
def countSeek (r : Reader) : Reader :=
  { r with
    seekPointPos := if r.gotSeekPoint then r.seekPointPos else u32 (r.seekPointPos + r.readingBuffer.length) }

/-- The sentinel before the restart after a big gap. -/
def bigGap (r : Reader) : Reader := { r with curPieceTs := noPieceTs }

/-- The end of the tag head case, of a tag of any type. -/
def appendTagHead (r : Reader) : Reader := pushTagHead (countSeek r)

/-- `cur_flv_tag_type_` of the tag being read. -/
def typeTag (r : Reader) : Reader := { r with curFlvTagType := tagType r.readingBuffer }

/-- An audio or video tag with its timestamp and its slot. -/
def placeTag (r : Reader) : Reader :=
  slotTag (stampTag (beginData (typeTag r) (getTagTs r.readingBuffer)) (getTagTs r.readingBuffer))

/-- `case READING_FLV_TAGHEAD`. -/
def flvDataTaghead (r : Reader) : Out :=
  if tagType r.readingBuffer = flvAudiodata ∨ tagType r.readingBuffer = flvVideodata then
    match cutTag (placeTag r) with
    | some out => ⟨appendTagHead out.1, out.2, true⟩
    | none => restart (bigGap (placeTag r))
  else ⟨appendTagHead (typeTag r), [], true⟩

/-- The tag being read, as a sequence header for later. -/
def bufferedTag (r : Reader) : Option (Buffer × Buffer) := r.piece.getLast?.map (·, r.readingBuffer)

/-- `AsyncUpdateHeader` of the buffered sequence headers. -/
def updateHeaders (r : Reader) : List Call :=
  (r.aacSequenceHeader.toList ++ r.avcSequenceHeader.toList).map fun t => .asyncUpdateHeader t.1 t.2

/-- The cut at a key frame: its tag header moves to the next piece. -/
def cutAtKeyFrame (r : Reader) : Reader × List Call :=
  ({ r with
      gotSeekPoint := true, seekPointPos := 0, piece := r.piece.getLast?.toList
      shouldCutCount := r.shouldCutCount - 1, aacSequenceHeader := none, avcSequenceHeader := none },
    .asyncWritePiece r.piece.dropLast 0 r.flvTagTimestamp :: updateHeaders r)

/-- A video tag body that is no sequence header. -/
def keyFrame (r : Reader) : Reader × List Call :=
  if isKeyFrame r.readingBuffer then
    if r.cutWithKf then
      if r.shouldCutCount > 0 then cutAtKeyFrame r else (r, [])
    else ({ r with gotSeekPoint := true, seekPointPos := sub32 r.seekPointPos flvTagheaderTSize }, [])
  else (r, [])

/-- What the body of an audio or video tag leads to. -/
def dataTag (r : Reader) : Reader × List Call :=
  if r.curFlvTagType = flvAudiodata then
    if isAac r.readingBuffer ∧ isSequenceHeader r.readingBuffer then
      ({ r with aacSequenceHeader := bufferedTag r }, [])
    else (r, [])
  else if r.curFlvTagType = flvVideodata then
    if isAvc r.readingBuffer ∧ isSequenceHeader r.readingBuffer then
      ({ r with avcSequenceHeader := bufferedTag r, cutWithKf := r.needCutWithKf }, [])
    else keyFrame r
  else (r, [])

/-- `Insert empty piece`: more than two cuts are due, all but one are made. -/
def insertEmptyPieces (r : Reader) : Reader × List Call :=
  if r.shouldCutCount > 2 then
    ({ r with shouldCutCount := 1 },
      List.replicate (r.shouldCutCount - 1).toNat (.asyncWritePiece [] 0 0))
  else (r, [])

/-- The tag gets its body, and the next tag header is asked for. -/
def appendTagBody (r : Reader) : Reader := nextTag { r with piece := r.piece ++ [r.readingBuffer] }

/-- `case READING_FLV_TAGBODY`. -/
def flvDataTagbody (r : Reader) : Out :=
  let tag := dataTag r
  let out := insertEmptyPieces tag.1
  ⟨appendTagBody (countSeek out.1), tag.2 ++ out.2, true⟩

/-! ## `on_content` -/

/-- One step of the parser on a filled buffer. In `STAT_NEED_FLV_DATA` with
`READING_HEAD` the code asserts. -/
def parse (r : Reader) : Out :=
  match r.stat, r.readingStat with
  | .needHead, .head => needHeadHead r
  | .needHead, .flvTaghead => needHeadTaghead r
  | .needHead, .flvTagbody => needHeadTagbody r
  | .needFlvData, .flvTaghead => flvDataTaghead r
  | .needFlvData, .flvTagbody => flvDataTagbody r
  | .needFlvData, .head => ⟨r, [], true⟩

/-- The end of `on_content`: the limit on the next request, or the request. -/
def finish (o : Out) : Reader × List Call :=
  if o.resume then
    if o.reader.readingSize > maxReadingSize then (asyncBegin o.reader, o.calls ++ [.readerError])
    else (receive o.reader, o.calls)
  else (o.reader, o.calls)

/-- `on_content` without an error, `data` the bytes received at `writePos`. -/
def onData (r : Reader) (writePos : Nat) (data : List Byte) : Reader × List Call :=
  let r := { r with
    op := .idle, peddingCutDownTime := csPeddingCutDownTime
    readingBuffer := overwrite r.readingBuffer writePos data }
  if data.length < r.readingSize then
    ({ r with
        op := .receiving (r.readingBuffer.length - r.readingSize + data.length)
        readingSize := r.readingSize - data.length }, [])
  else finish (parse r)

/-- `on_content` with an error or without bytes. -/
def onError (r : Reader) : Reader × List Call := (asyncBegin { r with op := .idle }, [.readerError])

/-- `on_content`: a receive of zero bytes counts as an error. -/
def onContent (r : Reader) (writePos : Nat) (data : List Byte) : Reader × List Call :=
  if data.length > 0 then onData r writePos data else onError r

/-- `CStreamReader::OnClockAlarm`; a cancelled operation completes with an error later. -/
def readerOnClockAlarm (r : Reader) : Reader :=
  if r.isReaderReady then { r with peddingCutDownTime := r.peddingCutDownTime - 1 }
  else
    let r := { r with startCutDownTime := r.startCutDownTime - 1 }
    if r.startCutDownTime = 0 then doBegin r else r

/-- `CStreamReader(url, …)` for block files and `Start`, with the timestamp
that `Init` recovered. The constructor divides by `cut_scale_`: where that wraps to 0
the process ends here, and this reader is none it ever has. -/
def startReader (url : List Char) (cutWithKf needModifyTs : Bool) (pieceScale mediaTs : Nat) : Reader :=
  asyncBegin {
    url, needCutWithKf := cutWithKf, needModifyTs, cutScale := u32 (pieceScale * 1000)
    stat := .needHead, readingStat := .head, readingBuffer := [], readingSize := 0, op := .idle
    piece := [], curFlvTagType := 0, flvTagBegTimestamp := 0, flvTagTimestamp := mediaTs
    curFlvTagTs := 0, curPieceTs := mediaTs / u32 (pieceScale * 1000)
    gotAudioHead := false, gotVideoHead := false, isHeaderOver := false
    gotSeekPoint := false, seekPointPos := 0, cutWithKf, shouldCutCount := 0
    isReaderReady := false, peddingCutDownTime := 0, startCutDownTime := 0
    flvTagTsDelta := 0, gotFirstDataTag := false
    aacSequenceHeader := none, avcSequenceHeader := none }

end XH.Impl.Cutter
