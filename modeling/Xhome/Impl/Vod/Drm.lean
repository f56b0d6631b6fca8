import Mathlib.Logic.Function.Basic
import Xhome.Framework.Word
import Xhome.Impl.Vod.Playlist

/-!
# The keys of the channels (`wsgi_drm.py`)

`DrmWorker` reads a list of channels with their keys. `M3uBuilder` asks it for
the tag of a channel's key and `wsgi_flv2ts.py` has it encrypt a segment. The
list has been read as JSON and the keys from base64.
-/

namespace XH.Impl.Vod

/-- A `result` of the list. -/
structure DrmEntry where
  streamGUID : Text
  drmkey : List Byte
  drmUrl : Text

/-- `channel_drm` -/
abbrev ChannelDrm := Text → Option (List Byte × Text)

/-- The loop of `load_channel`: of two entries the later one stays. -/
def loadChannel (result : List DrmEntry) : ChannelDrm :=
  result.foldl (fun d e => Function.update d e.streamGUID (some (e.drmkey, e.drmUrl))) fun _ => none

/-- `format_key_tag`, with `method` and `iv` of `wsgi.conf`. -/
def formatKeyTag (channelDrm : ChannelDrm) (channel : Text) : Option Text :=
  (channelDrm channel).map fun (_, drmUrl) =>
    "#EXT-X-KEY:METHOD=AES-128,URI=\"".toList ++ drmUrl ++ "\",IV=0x00000000000000000000000000000000\r\n".toList

/-- What `M3uBuilder` has of a channel from `DrmWorker`. -/
def keyTag (protect : Bool) (channelDrm : ChannelDrm) (channel : Text) : Option Text :=
  if protect then formatKeyTag channelDrm channel else none

end XH.Impl.Vod
