import Xhome.Framework.Word
import Xhome.Framework.Prog
import Xhome.Framework.Tree
import Xhome.Framework.SortedMap
import Xhome.Framework.Reach
import Xhome.Framework.Runs
import Xhome.Framework.Fragment
import Xhome.Framework.Windows
import Xhome.Framework.Progression
import Xhome.Framework.Utf8
import Xhome.Framework.FrameDecoder
import Xhome.Framework.Socket
import Xhome.Framework.Grouped
import Xhome.Framework.Decimal
import Xhome.Framework.Pattern
import Xhome.Framework.Raising
import Xhome.Framework.XorLinear
import Xhome.Framework.Utf8RoundTrip
import Xhome.Framework.Lines
import Xhome.Impl.Cutter.Flv
import Xhome.Impl.Cutter.CheckSum
import Xhome.Impl.Cutter.Block
import Xhome.Impl.Cutter.Writer
import Xhome.Impl.Cutter.Handlers
import Xhome.Impl.Cutter.Init
import Xhome.Impl.Cutter.Reader
import Xhome.Impl.Cutter.System
import Xhome.Impl.Cutter.Main
import Xhome.Impl.Cutter.PieceFile
import Xhome.Impl.Cutter.PplWriter
import Xhome.Impl.Cutter.FlvWriter
import Xhome.Proof.Cutter.Parser
import Xhome.Proof.Cutter.Receive
import Xhome.Proof.Cutter.Tags
import Xhome.Proof.Cutter.Frame
import Xhome.Proof.Cutter.Sync
import Xhome.Proof.Cutter.Attempt
import Xhome.Proof.Cutter.Retry
import Xhome.Proof.Cutter.Consistent
import Xhome.Proof.Cutter.CheckSum
import Xhome.Proof.Cutter.SingleByte
import Xhome.Proof.Cutter.Rules
import Xhome.Proof.Cutter.Blocks
import Xhome.Proof.Cutter.Overrun
import Xhome.Proof.Cutter.Timeline
import Xhome.Proof.Cutter.Offair
import Xhome.Proof.Cutter.Disk
import Xhome.Proof.Cutter.Restart
import Xhome.Proof.Cutter.Headers
import Xhome.Proof.Cutter.Delivery
import Xhome.Proof.Cutter.Freshness
import Xhome.Proof.Cutter.Notes
import Xhome.Proof.Cutter.KeyFrames
import Xhome.Proof.Cutter.Restamp
import Xhome.Proof.Cutter.Reconnect
import Xhome.Proof.Cutter.Backwards
import Xhome.Proof.Cutter.LastTs
import Xhome.Proof.Cutter.MediaTime
import Xhome.Proof.Cutter.Outstanding
import Xhome.Proof.Cutter.PlainCuts
import Xhome.Proof.Cutter.SeekPoint
import Xhome.Proof.Cutter.Interval
import Xhome.Proof.Cutter.Retention
import Xhome.Proof.Cutter.Wrap
import Xhome.Impl.Vod.HoldBlock
import Xhome.Impl.Vod.Segment
import Xhome.Impl.Vod.Playlist
import Xhome.Proof.Vod.Segments
import Xhome.Proof.Vod.Playlists
import Xhome.Impl.Vod.Routes
import Xhome.Impl.Vod.Manifest
import Xhome.Impl.Vod.Drm
import Xhome.Impl.Vod.Application
import Xhome.Impl.Vod.Programs
import Xhome.Proof.Vod.Fragments
import Xhome.Proof.Vod.Answers
import Xhome.Proof.Vod.Workers
import Xhome.Proof.Vod.Encryption
import Xhome.Proof.Cutter.Hold
import Xhome.Proof.Cutter.Location
import Xhome.Proof.Cutter.PieceFile
import Xhome.Proof.Cutter.PieceRules
import Xhome.Proof.Cutter.PieceHeader
import Xhome.Proof.Cutter.PplPieces
import Xhome.Proof.Cutter.FailedWrites
import Xhome.Proof.Cutter.SeekPieces
import Xhome.Proof.Cutter.SelfDescribing
import Xhome.Proof.Processor.Table
import Xhome.Proof.Processor.Moves
import Xhome.Proof.Processor.Supervisor
import Xhome.Proof.Processor.Channels
import Xhome.Proof.Processor.Cleanup
import Xhome.Impl.Camera.Interface
import Xhome.Proof.Camera.Layout
import Xhome.Proof.Camera.Fifo
import Xhome.Proof.Camera.Allocation
import Xhome.Proof.Camera.Semaphore
import Xhome.Impl.Camera.DataTransfer
import Xhome.Proof.Camera.Recording
import Xhome.Impl.Camera.MessageHandler
import Xhome.Proof.Camera.Framing
import Xhome.Impl.Control.Protocol
import Xhome.Impl.Control.Pipeline
import Xhome.Impl.Control.Registry
import Xhome.Impl.Control.Race
import Xhome.Proof.Control.RoundTrip
import Xhome.Proof.Control.Bodies
import Xhome.Proof.Control.Interference
import Xhome.Proof.Control.Registry
import Xhome.Proof.Control.Race
import Xhome.Impl.App.CameraList
import Xhome.Proof.App.CameraList
import Xhome.Framework.Turns
import Xhome.Impl.Live.Header
import Xhome.Impl.Live.Protocol
import Xhome.Impl.Live.OutStream
import Xhome.Impl.Live.InStream
import Xhome.Impl.Live.LiveFlv
import Xhome.Proof.Live.Header
import Xhome.Proof.Live.Segments
import Xhome.Proof.Live.ChunkStream
import Xhome.Proof.Live.Delivery
import Xhome.Proof.Live.FrameChunks
import Xhome.Proof.Live.Prepare
import Xhome.Proof.Live.Player
import Xhome.Proof.Live.Frames
import Xhome.Proof.Live.Dropping
import Xhome.Proof.Live.Joining
import Xhome.Proof.Live.Relay
import Xhome.Proof.Live.LiveFlv
import Xhome.Proof.Live.FlvRelay
import Xhome.Framework.BigEndian
import Xhome.Impl.Live.Rtp
import Xhome.Proof.Live.RtpSend
import Xhome.Proof.Live.RtpReceive
