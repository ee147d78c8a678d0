import Snitchaser.Foundation.Congruential
import Snitchaser.Foundation.OpenAddressing
import Snitchaser.Common.Defs
import Snitchaser.Common.Bithacks
import Snitchaser.Interp.Dict
import Snitchaser.Decoder.Opcode
import Snitchaser.Decoder.BuildTable
import Snitchaser.Decoder.Instructions
import Snitchaser.Decoder.ScanOpcode
import Snitchaser.Decoder.Listing
import Snitchaser.Decoder.Encoding
import Snitchaser.Decoder.IntelLength
import Snitchaser.Compiler.Branch
import Snitchaser.Compiler.CodeCache
import Snitchaser.Signal.Unwind
import Snitchaser.Compiler.Recompile
import Snitchaser.Signal.Chaining
import Snitchaser.Foundation.LittleEndian
import Snitchaser.Log.Logger
import Snitchaser.Log.ReplayLog
import Snitchaser.Log.Stream
import Snitchaser.Replay.Record
import Snitchaser.Replay.SingleStep
import Snitchaser.Foundation.Journal
import Snitchaser.Syscalls.Script
import Snitchaser.Syscalls.Table
import Snitchaser.Syscalls.Agree
import Snitchaser.Log.Overrun
import Snitchaser.Log.ReadBack
import Snitchaser.Log.Uncompress
import Snitchaser.Interp.Tls
import Snitchaser.Syscalls.Handshake
import Snitchaser.Syscalls.AddressSpace
import Snitchaser.Checkpoint.Region
import Snitchaser.Checkpoint.Framing
import Snitchaser.Checkpoint.Maps
import Snitchaser.Checkpoint.Coverage
import Snitchaser.Host.Exception
import Snitchaser.Host.Structured
import Snitchaser.Foundation.X86State
import Snitchaser.Compiler.Execute
import Snitchaser.Compiler.Transparent
import Snitchaser.Replay.Classify
import Snitchaser.Compiler.Encode
import Snitchaser.Compiler.Architectural
import Snitchaser.Compiler.BlockLayout
import Snitchaser.Signal.FaultAddress
import Snitchaser.Replay.FaultStep
import Snitchaser.Replay.ContSignal
import Snitchaser.Replay.SignalFrame
import Snitchaser.Signal.Actions
import Snitchaser.Foundation.Runs
import Snitchaser.Signal.KillSignal
import Snitchaser.Log.Supply
import Snitchaser.Replay.DataChannel
import Snitchaser.Replay.ChannelRuns
import Snitchaser.Syscalls.Sizes
import Snitchaser.Checkpoint.Scratch
import Snitchaser.Syscalls.Footprint
import Snitchaser.Checkpoint.Validate
import Snitchaser.Foundation.Marked
import Snitchaser.Log.Peek
import Snitchaser.Signal.HandlerMask
import Snitchaser.Signal.ResumedCalls
import Snitchaser.Interp.Selector
import Snitchaser.Interp.ObjPages
import Snitchaser.Foundation.Terminated
import Snitchaser.Host.Arguments
import Snitchaser.Host.Readlink
import Snitchaser.Host.ProcMaps
import Snitchaser.Host.Ptrace
import Snitchaser.Decoder.PrintTable
import Snitchaser.Foundation.CutOff
import Snitchaser.Log.CutOff
import Snitchaser.Foundation.Lookback
import Snitchaser.Lzo1x.Format
import Snitchaser.Lzo1x.Compress
import Snitchaser.Lzo1x.Decompress
import Snitchaser.Lzo1x.RoundTrip
import Snitchaser.Lzo1x.Safety
import Snitchaser.Log.Codec
import Snitchaser.Foundation.Locked
import Snitchaser.Foundation.Ring
import Snitchaser.Interp.TlsControl
import Snitchaser.Replay.Continue
import Snitchaser.Compiler.SyscallEntry
import Snitchaser.Compiler.TracedRun
