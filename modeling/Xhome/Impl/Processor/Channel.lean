import Xhome.Framework.Tree

/-!
# Channel lines (`cutterprocessor/main.cpp`)

A line of `cutter_channel_list` holds a guid, a url and an interval, and
becomes the command line of a worker. The paths are those of
`boost::filesystem`, of which the supervisor uses `/=`, `remove_leaf` and
`string`.
-/

namespace XH.Impl.Processor

/-- The characters of a `std::string`. -/
abbrev Text := List Char

/-- `boost::filesystem::path`, by its `string()`. -/
structure PathOps where
  /-- `path /= leaf` -/
  append : Text → Text → Text
  /-- `path.remove_leaf()` -/
  removeLeaf : Text → Text

/-- The values of `cutter_base.ini`. -/
structure Config where
  workDir : Text
  cacheTime : Text
  headCacheTime : Text
  rtmpProxyUrl : Text

/-- `isspace` in the "C" locale. -/
def isSpace (c : Char) : Bool := c = ' ' || (0x09 ≤ c.toNat && c.toNat ≤ 0x0d)

/-- `ss >> word`: the word and what is left of the stream. -/
def readWord (ss : Text) : Text × Text :=
  let ss := ss.dropWhile isSpace
  (ss.takeWhile (!isSpace ·), ss.dropWhile (!isSpace ·))

structure Channel where
  guid : Text
  url : Text
  interval : Text
  deriving DecidableEq

/-- `ss >> guid >> url >> interval` -/
def parseChannel (line : Text) : Channel :=
  let guid := readWord line
  let url := readWord guid.2
  let interval := readWord url.2
  ⟨guid.1, url.1, interval.1⟩

/-- A line that holds no channel. -/
def isSkipped (line : Text) : Bool := line = [] || line.head? = some '#'

/-- The url the worker is given. -/
def workerUrl (conf : Config) (url : Text) : Text :=
  if url.take 4 = "rtmp".toList then conf.rtmpProxyUrl ++ url else url

/-- `cmd_line` of a channel, with `work_path` at its directory. -/
def cmdLine (conf : Config) (workPath : Text) (ch : Channel) : Text :=
  "./cutterworker ".toList ++ workerUrl conf ch.url ++ " ".toList ++ workPath ++
    (" ".toList ++ conf.cacheTime ++ " ".toList ++ conf.headCacheTime) ++ (" ".toList ++ ch.interval)

end XH.Impl.Processor
