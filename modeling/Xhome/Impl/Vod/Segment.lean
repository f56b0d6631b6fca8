import Mathlib.Logic.Function.Basic
import Xhome.Impl.Vod.HoldBlock

/-!
# Segments from the ramdisk (`wsgi_flv2ts.py`)

A request for a segment runs `PpboxSDKWorker` or, through `FfmpegWorker`,
`RamdiskWorker`, as `method` of `wsgi.conf` says. The directory of the channel
is made if it is missing, the programs of `os.system` leave files there, the
output is read and the files are removed. `pptransfer` and `ffmpeg` stand for
the transcoders. The route admits hexadecimal channels and segments of ten
digits, so that the names of two segments never meet. `drm` is off in
`wsgi.conf`; what `application` makes of an empty stream is in `HoldBlock`.
-/

namespace XH.Impl.Vod

inductive Method where
  | pptransfer
  | ffmpeg
  deriving Repr, DecidableEq

/-- `channel_id` and `seq_id` -/
structure Segment where
  channelId : String
  seqId : String
  deriving Repr, DecidableEq

/-- The files of a segment. -/
inductive RamdiskFile where
  /-- `ramdisk_file_flv` -/
  | flv (s : Segment)
  /-- `ramdisk_file` -/
  | ts (s : Segment)
  deriving Repr, DecidableEq

structure Ramdisk where
  /-- Whether the directory of a channel exists. -/
  dirs : String → Bool
  files : RamdiskFile → Option (List Byte)

def Ramdisk.write (d : Ramdisk) (f : RamdiskFile) (bs : List Byte) : Ramdisk :=
  { d with files := Function.update d.files f (some bs) }

def Ramdisk.remove (d : Ramdisk) (f : RamdiskFile) : Ramdisk :=
  { d with files := Function.update d.files f none }

/-- The next step of a request. -/
inductive Point where
  | pathExists
  | mkdir
  | download
  | transcode
  | read
  | removeFlv (stream : List Byte)
  | remove (stream : List Byte)
  | returned (stream : List Byte)
  /-- The exception of `os.mkdir` leaves the worker. -/
  | raised
  deriving Repr, DecidableEq

def Point.finished : Point → Bool
  | .returned _ | .raised => true
  | _ => false

structure Server where
  method : Method
  block : Segment → List Byte
  /-- The answer to a range behind the end of a block. -/
  page : List Byte
  pptransfer : List Byte → List Byte
  ffmpeg : List Byte → List Byte

/-- What `curl` gets with the range `range_flv`. -/
def Server.curl (v : Server) (s : Segment) : List Byte := fetch v.page rangeFlv (v.block s)

/-- The step behind the directory. -/
def Server.afterDir (v : Server) : Point :=
  match v.method with
  | .pptransfer => .download
  | .ffmpeg => .transcode

/-- The transcoder: `pptransfer` reads the file that was downloaded, `ffmpeg`
the output of `curl`. -/
def Server.transcode (v : Server) (s : Segment) (d : Ramdisk) : Ramdisk :=
  match v.method with
  | .pptransfer =>
    match d.files (.flv s) with
    | some bs => d.write (.ts s) (v.pptransfer bs)
    | none => d
  | .ffmpeg => d.write (.ts s) (v.ffmpeg (v.curl s))

/-- `PpboxSDKWorker` and `RamdiskWorker`, one step. -/
def workerStep (v : Server) (s : Segment) (d : Ramdisk) : Point → Ramdisk × Point
  | .pathExists => (d, if d.dirs s.channelId then v.afterDir else .mkdir)
  | .mkdir =>
    if d.dirs s.channelId then (d, .raised)
    else ({ d with dirs := Function.update d.dirs s.channelId true }, v.afterDir)
  | .download => (d.write (.flv s) (v.curl s), .transcode)
  | .transcode => (v.transcode s d, .read)
  | .read =>
    let stream := (d.files (.ts s)).getD []
    (d, match v.method with
      | .pptransfer => .removeFlv stream
      | .ffmpeg => .remove stream)
  | .removeFlv stream => (d.remove (.flv s), .remove stream)
  | .remove stream => (d.remove (.ts s), .returned stream)
  | .returned stream => (d, .returned stream)
  | .raised => (d, .raised)

/-- A request that runs alone. -/
def alone (v : Server) (s : Segment) : Nat → Ramdisk → Point → Point
  | 0, _, p => p
  | fuel + 1, d, p => alone v s fuel (workerStep v s d p).1 (workerStep v s d p).2

section

variable {ι : Type} [DecidableEq ι]

/-- Requests that share the ramdisk. -/
structure Requests (ι : Type) where
  disk : Ramdisk
  points : ι → Point

def requestStep (v : Server) (segment : ι → Segment) (r : Requests ι) (i : ι) : Option (Requests ι) :=
  if (r.points i).finished then none
  else
    let (disk, p) := workerStep v (segment i) r.disk (r.points i)
    some ⟨disk, Function.update r.points i p⟩

end

end XH.Impl.Vod
