import Xhome.Framework.Tree

/-!
# Playlists (`wsgi_flv2m3u.py`) and who asks for them

`M3uBuilder` lists the segments of a live stream around `delay` seconds ago.
Its URI comes through the route `^/live/(\d+)/(\d+)/([a-f0-9]+).(m3u|m3u8)$`;
the Android client fills the second number in with the time between now and the
point its user has sought. Texts are lists of characters, `now` is `time.time()`
without its fraction, which the division drops, and `drm` is off in `wsgi.conf`.
-/

namespace XH.Impl.Vod

abbrev Text := List Char

/-- `len_before_delay` -/
def lenBeforeDelay : Nat := 360

/-- `len_after_delay` -/
def lenAfterDelay : Nat := 3

/-- `int(s)` of digits. -/
def int (s : Text) : Option Nat := if s ≠ [] ∧ s.all Char.isDigit then some (Nat.ofDigitChars 10 s 0) else none

def str (n : Int) : Text := (toString n).toList

/-- The parts of a playlist's URI. -/
structure M3uUri where
  interval : Nat
  delay : Nat
  channel : Text
  deriving Repr, DecidableEq

/-- The first lines of `M3uBuilder`. -/
def parseUri (uri : Text) : Option M3uUri := do
  let uriParaList := uri.splitOn '/'
  let interval ← int (← uriParaList[2]?)
  let delay ← int (← uriParaList[3]?)
  let channel ← ((← uriParaList[4]?).splitOn '.').head?
  return ⟨interval, delay, channel⟩

/-- `time_start`, the first timestamp of a playlist. -/
def timeStart (now interval delay : Nat) : Int := (now / interval * interval : Nat) - delay - (lenBeforeDelay * interval : Nat)

/-- The timestamps of the segments that the loop lists. -/
def timestamps (now interval delay : Nat) : List Int :=
  (List.range (lenBeforeDelay + lenAfterDelay)).map fun i => timeStart now interval delay + (i * interval : Nat)

structure Playlist where
  uri : M3uUri
  timestamps : List Int
  content : Text

/-- `M3uBuilder` -/
def m3uBuilder (now : Nat) (host uri args : Text) : Option Playlist := do
  let u ← parseUri uri
  if u.interval = 0 then none
  else
    let header := "#EXTM3U\r\n".toList ++ "#EXT-X-TARGETDURATION:".toList ++ str u.interval ++ "\r\n".toList
      ++ "#EXT-X-VERSION:3\r\n".toList
      ++ "#EXT-X-MEDIA-SEQUENCE:".toList ++ str (timeStart now u.interval u.delay / u.interval) ++ "\r\n".toList
    let ts := timestamps now u.interval u.delay
    let entry t := "#EXTINF:".toList ++ str u.interval ++ ",\r\n".toList ++ "http://".toList ++ host
      ++ "/live/".toList ++ u.channel ++ "/".toList ++ str t ++ ".ts".toList ++ args ++ "\r\n".toList
    return ⟨u, ts, header ++ ts.flatMap entry⟩

/-! ## The playlist and its key -/

/-- What a playlist says. -/
structure M3u8 where
  interval : Nat
  mediaSequence : Int
  /-- The tag of the channel's key, with `drm` on. -/
  keyTag : Option Text
  segmentUris : List Text

def segmentUri (host channel args : Text) (t : Int) : Text :=
  "http://".toList ++ host ++ "/live/".toList ++ channel ++ "/".toList ++ str t ++ ".ts".toList ++ args

/-- `M3uBuilder`; `keyTag` gives what it has of a channel from `wsgi_drm`. -/
def m3u8Builder (keyTag : Text → Option Text) (now : Nat) (host uri args : Text) : Option M3u8 := do
  let u ← parseUri uri
  if u.interval = 0 then none
  else
    return {
      interval := u.interval
      mediaSequence := timeStart now u.interval u.delay / u.interval
      keyTag := keyTag u.channel
      segmentUris := (timestamps now u.interval u.delay).map (segmentUri host u.channel args) }

/-- `m3u8_content` -/
def M3u8.content (m : M3u8) : Text :=
  "#EXTM3U\r\n".toList ++ "#EXT-X-TARGETDURATION:".toList ++ str m.interval ++ "\r\n".toList
    ++ "#EXT-X-VERSION:3\r\n".toList
    ++ "#EXT-X-MEDIA-SEQUENCE:".toList ++ str m.mediaSequence ++ "\r\n".toList
    ++ m.keyTag.getD []
    ++ m.segmentUris.flatMap fun u => "#EXTINF:".toList ++ str m.interval ++ ",\r\n".toList ++ u ++ "\r\n".toList

/-! ## The Android client -/

/-- `Constants.DEFAULT_PLAY_DELAY` -/
def defaultPlayDelay : Nat := 60

/-- `StringUtils.generateStreamUrl`, without the domain. -/
def generateStreamUrl (cid : Text) (delay : Int) : Text :=
  "/live/5/".toList ++ str (if delay ≤ defaultPlayDelay then defaultPlayDelay else delay) ++ "/".toList ++ cid
    ++ ".m3u8".toList

end XH.Impl.Vod
