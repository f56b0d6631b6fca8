import Xhome.Impl.Vod.Application

/-!
# Commands that succeed

The `Outside` of `wsgi_flv2ts.py` with a ramdisk, blocks that do not change and
programs that do what they are asked for; a transcoder may find nothing in a
block and leave no file. `curl` gets the last stream of a channel from the
server itself, whose requests may ask it again: `depth` bounds that.
-/

namespace XH.Impl.Vod

open XH.Raising

structure Disk where
  dirs : RamdiskPath → Bool
  files : RamdiskPath → Option (List Byte)

/-- `readlines()` -/
def readlines : List Byte → TsStream
  | [] => []
  | b :: bs =>
    if b = 0x0a then [b] :: readlines bs
    else
      match readlines bs with
      | [] => [[b]]
      | line :: lines => (b :: line) :: lines

structure Programs where
  block : Text → Text → List Byte
  /-- An answer that is no block and no segment. -/
  page : List Byte
  pptransfer : List Byte → Option (List Byte)
  ffmpeg : List Byte → Option (List Byte)
  drmlist : List DrmEntry
  /-- `openssl aes-128-cbc -e -nosalt` with the `iv` of `wsgi.conf` -/
  aes : List Byte → List Byte → List Byte
  /-- The file is padded to whole blocks, one of sixteen bytes if it has these already. -/
  aes_length : ∀ key bs, bs.length < (aes key bs).length

/-- What is at a path from now on. -/
def Site.put (path : RamdiskPath) (content : Option (List Byte)) (s : Site Disk) : Site Disk :=
  { s with files.files := Function.update s.files.files path content }

def storeFile (path : RamdiskPath) (bs : List Byte) : EStateM Unit (Site Disk) Unit := modify (Site.put path (some bs))

def removeFile (path : RamdiskPath) : EStateM Unit (Site Disk) Unit := do
  let _ ← orRaise ((← get).files.files path)
  modify (Site.put path none)

namespace Programs

variable (p : Programs) (ask : Text → EStateM Unit (Site Disk) (List Byte))

def curl : StreamCmd → EStateM Unit (Site Disk) (List Byte)
  | .block range channelId seqId => return fetch p.page range (p.block channelId seqId)
  | .ts uri => ask uri

/-- The output of a transcoder. -/
def output (file : RamdiskPath) : Option (List Byte) → EStateM Unit (Site Disk) Int
  | none => return 1
  | some bs => do
    storeFile file bs
    return 0

def system : Command → EStateM Unit (Site Disk) Int
  | .store cmd file => do output file (some (← curl p ask cmd))
  | .ffmpeg cmd file => do output file (p.ffmpeg (← curl p ask cmd))
  | .pptransfer cmd flv file => do
    let bs ← curl p ask cmd
    storeFile flv bs
    output file (p.pptransfer bs)
  | .openssl file tmp key => do
    match (← get).files.files file with
    | none => return 1
    | some bs => do
      removeFile file
      storeFile tmp bs
      output file (some (p.aes key bs))
  -- nothing reads the copy
  | .cp _ _ => return 0

def outside : Outside Disk where
  pathExists path s := s.files.dirs path || (s.files.files path).isSome
  mkdir path := do
    if (← get).files.dirs path then throw ()
    modify fun s => { s with files.dirs := Function.update s.files.dirs path true }
  system := system p ask
  openFile path s := (s.files.files path).map fun bs => ⟨some (readlines bs), true⟩
  getsize path s := (s.files.files path).map List.length
  remove := removeFile
  drmWorker := return loadChannel p.drmlist

/-- What `curl` gets of a request. -/
def reply (page : List Byte) : EStateM.Result Unit (Handler Disk) TsStream → EStateM.Result Unit (Site Disk) (List Byte)
  | .ok body h => .ok body.flatten h.site
  | .error _ h => .ok page h.site

/-- What the server answers, when its requests ask it again `depth` times at most. -/
def answer (c : Config) : Nat → Text → EStateM Unit (Site Disk) (List Byte)
  | 0, _ => return p.page
  | depth + 1, uri => fun s => reply p.page (application c (p.outside (answer c depth)) uri (.start s))

end Programs

/-- A segment of a playlist. -/
structure SegmentRequest where
  channelId : Text
  seqId : Text
  admitted : tsRoute (tsUri channelId seqId) = some (channelId, seqId)

/-- A request, answered by a server that it can ask again. -/
def serve (p : Programs) (c : Config) (depth : Nat) (r : SegmentRequest) (s : Site Disk) :
    EStateM.Result Unit (Handler Disk) TsStream :=
  application c (p.outside (p.answer c (depth + 1))) (tsUri r.channelId r.seqId) (.start s)

/-- The site behind a request. -/
def serveStep (p : Programs) (c : Config) (depth : Nat) (s : Site Disk) (r : SegmentRequest) : Option (Site Disk) :=
  match serve p c depth r s with
  | .ok _ h => some h.site
  | .error _ h => some h.site

end XH.Impl.Vod
