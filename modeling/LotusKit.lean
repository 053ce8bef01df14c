import LotusKit.Lib.Transition
import LotusKit.Schedule.Calc
import LotusKit.Schedule.Binds
import LotusKit.Schedule.Machine
import LotusKit.Schedule.Frame
import LotusKit.Schedule.Invariant
import LotusKit.Schedule.Reachable
import LotusKit.Schedule.Bound
import LotusKit.Schedule.Lifetime
import LotusKit.Schedule.Recovery
import LotusKit.Schedule.Burst
import LotusKit.Schedule.Flatten
import LotusKit.Lib.Scan
import LotusKit.Lib.RunLength
import LotusKit.Tas.Record
import LotusKit.Tas.Recording
import LotusKit.Tas.AsScript
import LotusKit.Schedule.Applied
import LotusKit.Tas.RoundTrip
import LotusKit.Tas.NxLabels
import LotusKit.Tas.InputDisplay
import LotusKit.Schedule.Clock
import LotusKit.Schedule.FrameAdvance
import LotusKit.Schedule.Charge
import LotusKit.Lib.Bytes
import LotusKit.Lib.Repeat
import LotusKit.Patch.Ips
import LotusKit.Patch.Revert
import LotusKit.Patch.Install
import LotusKit.Patch.Prepare
import LotusKit.Server.Base64
import LotusKit.Server.JsonDispatch
import LotusKit.Server.ClientFrame
import LotusKit.Server.Recv
import LotusKit.Server.Upload
import LotusKit.Server.Segments
import LotusKit.Lib.Memory
import LotusKit.Server.SendQueue
import LotusKit.Server.Lossless
import LotusKit.Server.Room
import LotusKit.Tas.Transpile
import LotusKit.Tas.NxSource
import LotusKit.Tas.TranspileRuns
import LotusKit.Editor.Number
import LotusKit.Lib.Regex
import LotusKit.Editor.Script
import LotusKit.Editor.Decimal
import LotusKit.Editor.Import
import LotusKit.Server.Header
import LotusKit.Server.Flush
import LotusKit.Server.Blocking
import LotusKit.Tas.Conservation
import LotusKit.Tas.TranspileReads
import LotusKit.Tas.TranspileOutput
import LotusKit.Server.Handshake
import LotusKit.Server.HandshakeKey
import LotusKit.Patch.FixedFps
import LotusKit.Schedule.Await
import LotusKit.Schedule.FrameStep
import LotusKit.Editor.Held
import LotusKit.Editor.Printed
import LotusKit.Editor.ReadInput
import LotusKit.Lib.BinarySearch
import LotusKit.Lib.SetEdit
import LotusKit.Freeze.Manager
import LotusKit.Freeze.Algebra
import LotusKit.Freeze.Unknown
import LotusKit.Draw.Toasts
import LotusKit.Draw.Board
import LotusKit.Draw.Lifetime
import LotusKit.Hotkey.Trigger
import LotusKit.Hotkey.Bindings
import LotusKit.Hotkey.Table
import LotusKit.Hotkey.Match
import LotusKit.Editor.Reorder
import LotusKit.Hashes.Info
import LotusKit.Hashes.Ingest
import LotusKit.Hashes.Keys
import LotusKit.Hashes.Order
import LotusKit.Files.World
import LotusKit.Files.Functions
import LotusKit.Files.Closing
import LotusKit.Files.ClosingPatch
import LotusKit.Editor.Controls
import LotusKit.Editor.History
import LotusKit.Editor.Optimized
import LotusKit.Editor.Objects
import LotusKit.Fps.CalcFrame
import LotusKit.Hashes.Structs
import LotusKit.Lib.CppTokens
import LotusKit.Disasm.Encoding
import LotusKit.Lib.CppProgram
import LotusKit.Disasm.Matcher
import LotusKit.Editor.ReadLoop
import LotusKit.Editor.ReadGyro
import LotusKit.Editor.ReadText
import LotusKit.Editor.Broadcast
import LotusKit.Lib.Sha1
import LotusKit.Server.Sha1
import LotusKit.Server.Accept
import LotusKit.Syms.Address
import LotusKit.Lib.Hex
import LotusKit.Lib.SortedTable
import LotusKit.Syms.Build
import LotusKit.Syms.Murmur3
import LotusKit.Syms.Lookup
import LotusKit.Syms.Linked
import LotusKit.Frame.Board
import LotusKit.Frame.Steps
import LotusKit.Frame.Runs
import LotusKit.Front.Delivery
import LotusKit.Front.Dumps
import LotusKit.Front.Browser
import LotusKit.Lib.Countdown
import LotusKit.Server.Listen
import LotusKit.Hotkey.Dispatch
import LotusKit.Lib.Stages
import LotusKit.Actors.Watcher
import LotusKit.Draw.HexDump
import LotusKit.Draw.HexDumpLines
import LotusKit.Lib.Forest
import LotusKit.Heaps.HeapInfo
import LotusKit.Heaps.MinFree
import LotusKit.Trace.StackTrace
import LotusKit.Schedule.Names
