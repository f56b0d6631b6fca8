import Xhome.Impl.Vod.Playlist

/-!
# Smooth streaming (`wsgi_flv2manifest.py`, `wsgi_flv2fragment.py`, `pplive.pm`)

`ManifestBuilder` announces a few chunks from about `delay` seconds ago on; a
player asks for each of them with the URL of its track, relative to the
manifest's. `wsgi_flv2fragment.application` takes the URI of the request apart,
and so does `pplive::getGuid`, which finds the channel to balance by. The
metadata of the first block, which `ManifestBuilder` copies into the manifest,
are left out.
-/

namespace XH.Impl.Vod

/-- `repeat_times` -/
def repeatTimes : Nat := 4

/-- `lookahead_count` -/
def lookaheadCount : Nat := 3

/-- `time_scale` -/
def timeScale : Nat := 10000000

inductive Track where
  | video
  | audio
  deriving Repr, DecidableEq

def Track.name : Track → Text
  | .video => "video".toList
  | .audio => "audio".toList

structure Manifest where
  /-- The parts of the manifest's URI. -/
  uri : M3uUri
  /-- `args_manifest` -/
  args : Text
  timeStart : Int
  timeDuring : Int

/-- `block_id_first`: `int` drops the fraction of the division, towards zero. -/
def blockIdFirst (now interval delay : Nat) : Int :=
  ((now : Int) + ((lookaheadCount : Int) - repeatTimes) * interval).tdiv interval * interval - delay

/-- `ManifestBuilder` -/
def manifestBuilder (now : Nat) (uri args : Text) : Option Manifest := do
  let u ← parseUri uri
  if u.interval = 0 then none
  else
    return {
      uri := u
      args := args
      timeStart := blockIdFirst now u.interval u.delay * timeScale
      timeDuring := (u.interval : Int) * timeScale }

/-- The `Url` of a stream, with the start time of a chunk filled in. -/
def Manifest.url (m : Manifest) (track : Track) (startTime : Int) : Text :=
  m.uri.channel ++ '/' :: (track.name ++ '/' :: (str startTime ++ (".fragment".toList ++ m.args)))

/-- The start time of a chunk, `t` and `d` of its stream's only `c`, which is repeated `r` times. -/
def Manifest.startTime (m : Manifest) (k : Nat) : Int := m.timeStart + k * m.timeDuring

/-- `http://ip:port/live/interval/delay/channel/(audio|video)/time.fragment` -/
def fragmentUrl (u : M3uUri) (track : Track) (time : Int) : Text :=
  '/' :: ("live".toList ++ '/' :: (str u.interval ++ '/' :: (str u.delay ++ '/' ::
    (u.channel ++ '/' :: (track.name ++ '/' :: (str time ++ ".fragment".toList))))))

structure FragmentUri where
  channelId : Text
  avTrack : Text
  seqId : Text
  deriving Repr, DecidableEq

/-- The first lines of `wsgi_flv2fragment.application`. -/
def parseFragmentUri (uri : Text) : Option FragmentUri := do
  let uriParaList := uri.splitOn '/'
  return ⟨← uriParaList[2]?, ← uriParaList[3]?, (← uriParaList[4]?).take 10⟩

/-! ## `pplive.pm` -/

def lc (s : Text) : Text := s.map Char.toLower

/-- `@array[i]`, where a part that is missing is empty. -/
def part (uri : Text) (i : Nat) : Text := ((uri.splitOn '/')[i]?).getD []

def getBlockGuid (uri : Text) : Text := lc (if part uri 1 = "cdn".toList then part uri 3 else part uri 2)

def getM3u8Guid (uri : Text) : Text := lc ((part uri 4).take 32)

def getTsGuid (uri : Text) : Text := lc (part uri 2)

def getFragmentGuid (uri : Text) : Text := lc (part uri 4)

/-- What is behind the last dot, or all of it. -/
def suffix (uri : Text) : Text := (uri.reverse.takeWhile (· ≠ '.')).reverse

/-- `/^name$/i`, where `$` stands before a line feed too. -/
def isSuffix (name s : Text) : Bool := lc s = name || lc s = name ++ ['\n']

def getGuid (uri : Text) : Option Text :=
  if isSuffix "block".toList (suffix uri) then some (getBlockGuid uri)
  else if isSuffix "m3u".toList (suffix uri) then some (getM3u8Guid uri)
  else if isSuffix "m3u8".toList (suffix uri) then some (getM3u8Guid uri)
  else if isSuffix "ts".toList (suffix uri) then some (getTsGuid uri)
  else if isSuffix "fragment".toList (suffix uri) then some (getFragmentGuid uri)
  else none

end XH.Impl.Vod
