import Xhome.Framework.Raising
import Xhome.Impl.Vod.Drm
import Xhome.Impl.Vod.Routes
import Xhome.Impl.Vod.Segment

/-!
# Requests for segments (`wsgi_flv2ts.py`)

`application` and its workers, with the exceptions of each step. What they ask
the system for is the parameter `Outside`: any step may fail, and other requests
may change the dictionary of the last URIs meanwhile. A program keeps its state
when it raises, as the names that are bound stay bound; `ts_stream` is one that
may not be. Writing to the log raises nothing.
-/

namespace XH.Impl.Vod

open XH.Raising

/-- What `readlines` gives; `''` is no lines. -/
abbrev TsStream := List (List Byte)

/-- `ts_length` -/
def TsStream.total (s : TsStream) : Nat := (s.map List.length).sum

/-- Of `wsgi.conf`. -/
structure Config where
  method : Method
  bakFailedTs : Bool
  /-- `protect` of `[drm]` -/
  protect : Bool
  deriving Repr, DecidableEq

inductive RamdiskPath where
  /-- `ramdisk_path` -/
  | channel (channelId : Text)
  /-- `ramdisk_file` -/
  | ts (channelId seqId : Text)
  /-- `ramdisk_file_flv` -/
  | flv (channelId seqId : Text)
  /-- `raw_file_tmp` -/
  | raw (channelId seqId : Text)
  /-- `failed_path` -/
  | failed
  deriving Repr, DecidableEq

/-- What `curl` is asked for. -/
inductive StreamCmd where
  /-- `uri_block` with a range -/
  | block (range : Range) (channelId seqId : Text)
  /-- `uri_ts_switch` -/
  | ts (uri : Text)

/-- The commands of `os.system`. -/
inductive Command where
  /-- `curl … -o file` -/
  | store (cmd : StreamCmd) (file : RamdiskPath)
  /-- `curl …|ffmpeg … file` -/
  | ffmpeg (cmd : StreamCmd) (file : RamdiskPath)
  /-- `curl … -o flv ;ppbox_transfer … flv … file` -/
  | pptransfer (cmd : StreamCmd) (flv file : RamdiskPath)
  /-- `mv file tmp;openssl … -in tmp -out file … -K key` -/
  | openssl (file tmp : RamdiskPath) (key : List Byte)
  | cp (file dir : RamdiskPath)

/-- A file that has been opened. -/
structure File where
  /-- None if `readlines` raises. -/
  lines : Option TsStream
  /-- Whether `close` returns. -/
  closes : Bool

/-- What the requests share: the files and `DICT_LAST_TS_URI`. -/
structure Site (τ : Type) where
  files : τ
  lastTsUri : Text → Option Text

/-- `{"" : ""}` -/
def lastTsUriAtStart : Text → Option Text := Function.update (fun _ => none) [] (some [])

structure Outside (τ : Type) where
  pathExists : RamdiskPath → Site τ → Bool
  mkdir : RamdiskPath → EStateM Unit (Site τ) Unit
  system : Command → EStateM Unit (Site τ) Int
  /-- None if `open` raises. -/
  openFile : RamdiskPath → Site τ → Option File
  /-- None if it raises. -/
  getsize : RamdiskPath → Site τ → Option Nat
  remove : RamdiskPath → EStateM Unit (Site τ) Unit
  /-- `DrmWorker()` -/
  drmWorker : EStateM Unit (Site τ) ChannelDrm

section
variable {τ : Type} (c : Config) (o : Outside τ)

def makeDir (path : RamdiskPath) : EStateM Unit (Site τ) Unit := do
  if o.pathExists path (← get) then return ()
  o.mkdir path

def closeFile : Option File → EStateM Unit (Site τ) Unit
  | none => pure ()
  | some tsFp => if tsFp.closes then pure () else throw ()

/-- `encrypt_mpegts` -/
def encryptMpegts (channelDrm : ChannelDrm) (channelId seqId : Text) : EStateM Unit (Site τ) Int := do
  let (key, _) ← orRaise (channelDrm channelId)
  let exitStatus ← o.system (.openssl (.ts channelId seqId) (.raw channelId seqId) key)
  let _ ← attempt (o.remove (.raw channelId seqId))
  return exitStatus

/-- The first `try` of `PpboxSDKWorker`, and what `exit_status` is bound to. -/
def transfer (streamCmd : StreamCmd) (channelId seqId : Text) : EStateM Unit (Site τ) (Option Int) := do
  let exitStatus ← attempt (o.system (.pptransfer streamCmd (.flv channelId seqId) (.ts channelId seqId)))
  if exitStatus.isSome && c.protect then
    let _ ← attempt do
      let channelDrm ← o.drmWorker
      encryptMpegts o channelDrm channelId seqId
  return exitStatus

/-- What `PpboxSDKWorker` does without a stream. Its handler names `failed_path`
and raises itself if that is not bound yet. -/
def keepFailed (exitStatus : Option Int) (channelId seqId : Text) : EStateM Unit (Site τ) Unit := do
  if o.pathExists (.flv channelId seqId) (← get) then
    let size ← orRaise (o.getsize (.flv channelId seqId) (← get))
    if 2048 < size then
      let _ ← orRaise exitStatus
      if c.bakFailedTs then
        let _ ← attempt do
          makeDir o .failed
          o.system (.cp (.flv channelId seqId) .failed)

/-- `PpboxSDKWorker` -/
def ppboxSDKWorker (streamCmd : StreamCmd) (channelId seqId : Text) : EStateM Unit (Site τ) TsStream := do
  makeDir o (.channel channelId)
  let exitStatus ← transfer c o streamCmd channelId seqId
  let tsFp := o.openFile (.ts channelId seqId) (← get)
  let stream := tsFp.bind File.lines
  if stream.isNone then keepFailed c o exitStatus channelId seqId
  closeFile tsFp
  let _ ← attempt (o.remove (.flv channelId seqId))
  let _ ← attempt (o.remove (.ts channelId seqId))
  return stream.getD []

/-- `RamdiskWorker`; the command ends with its file. -/
def ramdiskWorker (streamCmd : RamdiskPath → Command) (channelId seqId : Text) : EStateM Unit (Site τ) TsStream := do
  makeDir o (.channel channelId)
  let _ ← o.system (streamCmd (.ts channelId seqId))
  let tsFp := o.openFile (.ts channelId seqId) (← get)
  closeFile tsFp
  let _ ← attempt (o.remove (.ts channelId seqId))
  return (tsFp.bind File.lines).getD []

/-- `FfmpegWorker` -/
def ffmpegWorker (streamCmd : StreamCmd) (channelId seqId : Text) : EStateM Unit (Site τ) TsStream :=
  ramdiskWorker o (.ffmpeg streamCmd) channelId seqId

/-- `StreamWorker` -/
def streamWorker (streamCmd : StreamCmd) (channelId seqId : Text) : EStateM Unit (Site τ) TsStream :=
  ramdiskWorker o (.store streamCmd) channelId seqId

/-- The first stream of a request. -/
def transcoded (channelId seqId : Text) : EStateM Unit (Site τ) TsStream :=
  match c.method with
  | .pptransfer => ppboxSDKWorker c o (.block rangeFlv channelId seqId) channelId seqId
  | .ffmpeg => ffmpegWorker o (.block rangeFlv channelId seqId) channelId seqId

/-- What `start_response` is given. -/
structure Response where
  status : String
  headers : List (String × String)
  deriving Repr, DecidableEq

def normal (tsLength : Nat) : Response := ⟨"200 OK", [("Content-Type", "application/octet-stream"),
  ("Cache-Control", "cache"), ("Content-Length", toString tsLength)]⟩

/-- For a hold block and for a blank one. -/
def replaced : Response := ⟨"200 OK", [("Content-Type", "application/octet-stream"), ("Cache-Control", "cache")]⟩

def notFound : Response := ⟨"404 Not Found", [("Content-Type", "text/html")]⟩

def badGateway : Response := ⟨"502 Bad Gateway", [("Content-Type", "text/html")]⟩

/-- A request. -/
structure Handler (τ : Type) where
  site : Site τ
  /-- `ts_stream`, when it is bound. -/
  tsStream : Option TsStream
  /-- The calls of `start_response`. -/
  started : List Response

def Handler.start (site : Site τ) : Handler τ := ⟨site, none, []⟩

def onSite {α : Type} (m : EStateM Unit (Site τ) α) : EStateM Unit (Handler τ) α :=
  focus Handler.site (fun s h => { h with site := s }) m

/-- `ts_stream = …` -/
def bindStream (m : EStateM Unit (Site τ) TsStream) : EStateM Unit (Handler τ) TsStream := do
  let stream ← onSite m
  modify fun h => { h with tsStream := some stream }
  return stream

/-- The last stream in place of a hold block. -/
def substitute (channelId seqId : Text) : EStateM Unit (Handler τ) Unit := do
  let uri ← orRaise ((← get).site.lastTsUri channelId)
  let _ ← bindStream (streamWorker o (.ts uri) channelId seqId)
  -- the log names the URI once more
  let _ ← orRaise ((← get).site.lastTsUri channelId)

/-- A block that could not be transcoded. -/
def untranscoded (channelId seqId : Text) : EStateM Unit (Handler τ) Response := do
  let line ← orRaise (← onSite (streamWorker o (.block rangeFlv channelId seqId) channelId seqId))[0]?
  if line.take 3 = symbolFlv then
    let line ← orRaise (← onSite (streamWorker o (.block rangeHold channelId seqId) channelId seqId))[0]?
    if line.take 5 = symbolHold then substitute o channelId seqId
    return replaced
  else return notFound

/-- The `try` of `application`. -/
def respond (uriReq channelId seqId : Text) : EStateM Unit (Handler τ) Response := do
  let tsStream ← bindStream (transcoded c o channelId seqId)
  if 0 < tsStream.total then
    modify fun h => { h with site.lastTsUri := Function.update h.site.lastTsUri channelId (some uriReq) }
    return normal tsStream.total
  else untranscoded o channelId seqId

/-- `application` -/
def application (uriReq : Text) : EStateM Unit (Handler τ) TsStream := do
  let uriParaList := uriReq.splitOn '/'
  let channelId ← orRaise uriParaList[2]?
  let seqId := (← orRaise uriParaList[3]?).take 10
  let response ← tryCatch (respond c o uriReq channelId seqId) fun _ => return badGateway
  modify fun h => { h with started := h.started ++ [response] }
  orRaise (← get).tsStream

end

end XH.Impl.Vod
