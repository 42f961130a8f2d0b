import ScorbitPlugin.Codec.Layout
import ScorbitPlugin.Codec.Coding
import ScorbitPlugin.Codec.Stream
import ScorbitPlugin.Codec.Marked
import ScorbitPlugin.Wire.Bytes
import ScorbitPlugin.Wire.Payloads
import ScorbitPlugin.Wire.Codec
import ScorbitPlugin.Wire.Layouts
import ScorbitPlugin.Wire.GameLayouts
import ScorbitPlugin.Wire.TailLayouts
import ScorbitPlugin.Wire.RoundTrip
import ScorbitPlugin.Runs.System
import ScorbitPlugin.Wire.Message
import ScorbitPlugin.Wire.Framing
import ScorbitPlugin.Wire.Dump
import ScorbitPlugin.Wire.Redaction
import ScorbitPlugin.Source.GameQueue
import ScorbitPlugin.Worker.Games
import ScorbitPlugin.Worker.Batches
import ScorbitPlugin.Worker.ReadBack
import ScorbitPlugin.Worker.Session
import ScorbitPlugin.Worker.Step
import ScorbitPlugin.Worker.Moves
import ScorbitPlugin.Worker.Tracking
import ScorbitPlugin.Worker.Placement
import ScorbitPlugin.Worker.Flow
import ScorbitPlugin.Worker.Retained
import ScorbitPlugin.Worker.Identity
import ScorbitPlugin.Worker.Holes
import ScorbitPlugin.Worker.ReplayKey
import ScorbitPlugin.Worker.Watch
import ScorbitPlugin.Worker.Declares
import ScorbitPlugin.Worker.Answers
import ScorbitPlugin.Worker.Leaderboards
import ScorbitPlugin.Worker.AskedTable
import ScorbitPlugin.Worker.Players
import ScorbitPlugin.Worker.Pictures
import ScorbitPlugin.Worker.Dispatch
import ScorbitPlugin.Worker.Serving
import ScorbitPlugin.Worker.ScriptPlayers
import ScorbitPlugin.Worker.ScriptScores
import ScorbitPlugin.Memory.Requests
import ScorbitPlugin.Memory.Bridge
import ScorbitPlugin.Memory.Step
import ScorbitPlugin.Memory.Snapshots
import ScorbitPlugin.Memory.DirectRead
import ScorbitPlugin.Memory.Moves
import ScorbitPlugin.Memory.Runs
import ScorbitPlugin.Memory.Writes
import ScorbitPlugin.Memory.Numbering
import ScorbitPlugin.Memory.Polls
import ScorbitPlugin.Memory.Limits
import ScorbitPlugin.Memory.Records
import ScorbitPlugin.Memory.Frames
import ScorbitPlugin.Memory.Follows
import ScorbitPlugin.Memory.Replies
import ScorbitPlugin.Runs.Walk
import ScorbitPlugin.Overlay.Chain
import ScorbitPlugin.Overlay.Bitmap
import ScorbitPlugin.Overlay.Cache
import ScorbitPlugin.Handoff.SeqLock
import ScorbitPlugin.Notice.Notifier
import ScorbitPlugin.Notice.TakeDown
import ScorbitPlugin.Notice.GameNotice
import ScorbitPlugin.Source.Session
import ScorbitPlugin.Source.Accounting
import ScorbitPlugin.Notice.Light
import ScorbitPlugin.Overlay.Placement
import ScorbitPlugin.Overlay.Composite
import ScorbitPlugin.Overlay.Settle
import ScorbitPlugin.Notice.RomGame
import ScorbitPlugin.Notice.Repeats
import ScorbitPlugin.Display.Tap
import ScorbitPlugin.Display.FrameCache
import ScorbitPlugin.Worker.Delivery
import ScorbitPlugin.Program.Delivery
import ScorbitPlugin.Transport.Session
import ScorbitPlugin.Handoff.Latch
import ScorbitPlugin.Codec.Scan
import ScorbitPlugin.Worker.PictureDirectory
import ScorbitPlugin.Program.Leaderboards
import ScorbitPlugin.Overlay.Render
