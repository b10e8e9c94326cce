import EbpfDivert.Primitives.Limbs
import EbpfDivert.Primitives.Flags
import EbpfDivert.Primitives.Prefix
import EbpfDivert.Primitives.DecisionGraph
import EbpfDivert.Words
import EbpfDivert.Wd.Basic
import EbpfDivert.Primitives.Bytes
import EbpfDivert.Wd.Packet
import EbpfDivert.Wd.Test
import EbpfDivert.Wd.Execute
import EbpfDivert.Prefilter.Range
import EbpfDivert.Prefilter.Addr
import EbpfDivert.Prefilter.Cube
import EbpfDivert.Prefilter.Branch
import EbpfDivert.Prefilter.Encode
import EbpfDivert.Prefilter.Walk
import EbpfDivert.Prefilter.Lower
import EbpfDivert.Wd.Theorems.Execute
import EbpfDivert.Prefilter.Theorems.Walk
import EbpfDivert.Prefilter.Theorems.Cube
import EbpfDivert.Prefilter.Theorems.Describes
import EbpfDivert.Prefilter.Theorems.Branch
import EbpfDivert.Prefilter.Theorems.Family
import EbpfDivert.Prefilter.Theorems.AddrCode
import EbpfDivert.Prefilter.Theorems.Emit
import EbpfDivert.Prefilter.Theorems.Lower
import EbpfDivert.Prefilter.Theorems.Network
import EbpfDivert.Handle.Events
import EbpfDivert.Kernel.Events
import EbpfDivert.Prefilter.Events
import EbpfDivert.Prefilter.Theorems.EventBranch
import EbpfDivert.Prefilter.Theorems.Events
import EbpfDivert.Kernel.Match
import EbpfDivert.Kernel.Process
import EbpfDivert.Kernel.Theorems.Parse
import EbpfDivert.Kernel.Theorems.Process
import EbpfDivert.Handle.Basic
import EbpfDivert.Handle.Rules
import EbpfDivert.Handle.Inject
import EbpfDivert.Handle.Receive
import EbpfDivert.Handle.Theorems.Rules
import EbpfDivert.Handle.Theorems.Fate
import EbpfDivert.Handle.Theorems.Capture
import EbpfDivert.Host.Basic
import EbpfDivert.Host.Theorems.Chain
import EbpfDivert.Host.Theorems.Forward
import EbpfDivert.Primitives.Linked
import EbpfDivert.Handle.Queue
import EbpfDivert.Handle.Theorems.Queue
import EbpfDivert.Handle.Recv
import EbpfDivert.Handle.Theorems.Recv
import EbpfDivert.Kernel.Theorems.Outcome
import EbpfDivert.Registry.Basic
import EbpfDivert.Registry.Theorems.Priority
import EbpfDivert.Registry.Theorems.Share
import EbpfDivert.Handle.Theorems.Scan
import EbpfDivert.Wire.Basic
import EbpfDivert.Wire.Theorems.Parsers
import EbpfDivert.Wire.Theorems.Agree
import EbpfDivert.Handle.Theorems.Sound
import EbpfDivert.Handle.Theorems.Headers
import EbpfDivert.Handle.Close
import EbpfDivert.Handle.Theorems.Close
import EbpfDivert.Handle.Theorems.Deliver
import EbpfDivert.Host.Theorems.Inbound
import EbpfDivert.Kernel.Theorems.RawIp
import EbpfDivert.Handle.Shutdown
import EbpfDivert.Handle.Theorems.Shutdown
import EbpfDivert.Handle.Heartbeat
import EbpfDivert.Handle.Theorems.Heartbeat
import EbpfDivert.Handle.Drain
import EbpfDivert.Handle.Theorems.Drain
import EbpfDivert.Primitives.Memory
import EbpfDivert.Wd.Checksum
import EbpfDivert.Wd.Theorems.Checksum
import EbpfDivert.Wd.Theorems.Agree
import EbpfDivert.Handle.Theorems.Unmodified
import EbpfDivert.Handle.Send
import EbpfDivert.Handle.Theorems.Batch
import EbpfDivert.Primitives.Pieces
import EbpfDivert.Handle.Layout
import EbpfDivert.Handle.Theorems.Layout
import EbpfDivert.Handle.Theorems.Return
import EbpfDivert.Handle.Udp
import EbpfDivert.Handle.Theorems.Udp
import EbpfDivert.Kernel.Flows
import EbpfDivert.Handle.Reflect
import EbpfDivert.Kernel.Theorems.Flows
import EbpfDivert.Handle.Theorems.Reflect
import EbpfDivert.Handle.Theorems.Snapshots
import EbpfDivert.Handle.Teardown
import EbpfDivert.Handle.Theorems.Teardown
import EbpfDivert.Prefilter.Theorems.Negative
import EbpfDivert.Setup.Basic
import EbpfDivert.Setup.Open
import EbpfDivert.Setup.Theorems.Open
import EbpfDivert.Setup.Processes
import EbpfDivert.Setup.Theorems.Reap
import EbpfDivert.Prefilter.Theorems.Intersect
import EbpfDivert.Handle.Theorems.Loopback
import EbpfDivert.Kernel.Theorems.Invert
import EbpfDivert.Primitives.Codec
import EbpfDivert.Wd.Serialize
import EbpfDivert.Wd.Theorems.Serialize
import EbpfDivert.Handle.Theorems.Reported
import EbpfDivert.Prefilter.Recursion
import EbpfDivert.Prefilter.Theorems.Recursion
import EbpfDivert.Primitives.CString
import EbpfDivert.Pinned.Rules
import EbpfDivert.Pinned.Theorems.Scan
import EbpfDivert.Pinned.Theorems.Short
import EbpfDivert.Kernel.Theorems.Transport
import EbpfDivert.Pinned.Theorems.Icmp
import EbpfDivert.Primitives.JumpCode
import EbpfDivert.Wd.Text.Expr
import EbpfDivert.Wd.Text.Flatten
import EbpfDivert.Wd.Text.Theorems.Flatten
import EbpfDivert.Wd.Text.Theorems.Simplify
import EbpfDivert.Wd.Text.Grammar
import EbpfDivert.Wd.Text.Theorems.Parse
import EbpfDivert.Primitives.LimbArith
import EbpfDivert.Wd.Text.Numbers
import EbpfDivert.Primitives.Digits
import EbpfDivert.Wd.Text.Theorems.Numbers
import EbpfDivert.Wd.Text.Theorems.Addresses
import EbpfDivert.Primitives.BinarySearch
import EbpfDivert.Wd.Text.Tokens
import EbpfDivert.Wd.Text.Theorems.Tokens
import EbpfDivert.Wd.Text.Compile
import EbpfDivert.Wd.Text.Theorems.Compile
import EbpfDivert.Wd.Analyze
import EbpfDivert.Wd.Theorems.Analyze
import EbpfDivert.Handle.Theorems.Text
import EbpfDivert.Setup.Theorems.Analysis
import EbpfDivert.Primitives.Flowchart
import EbpfDivert.Wd.Text.Decompile
import EbpfDivert.Wd.Text.Theorems.Decompile
import EbpfDivert.Wd.Text.Format
import EbpfDivert.Wd.Text.Theorems.Format
import EbpfDivert.Wd.Text.Theorems.Spelling
import EbpfDivert.Wd.Text.Theorems.Readback
import EbpfDivert.Setup.Theorems.Refine
