import KernelProgramming.Lib.Runs
import KernelProgramming.Lib.Levels
import KernelProgramming.Lib.Rounds
import KernelProgramming.Lib.Descriptors
import KernelProgramming.Lib.Memory
import KernelProgramming.Lib.Fuel
import KernelProgramming.Lib.Links
import KernelProgramming.Lib.Tokens
import KernelProgramming.Lib.Traced
import KernelProgramming.Lib.Alloc
import KernelProgramming.Lib.Stateful
import KernelProgramming.Lib.Shares
import KernelProgramming.Lib.Buffered
import KernelProgramming.Sched.Task
import KernelProgramming.Sched.Rt
import KernelProgramming.Sched.Ts
import KernelProgramming.Sched.Core
import KernelProgramming.Sched.System
import KernelProgramming.Sched.QueueFair
import KernelProgramming.Sched.Bandwidth
import KernelProgramming.Sched.WakeQ
import KernelProgramming.Proofs.Sched.Frame
import KernelProgramming.Proofs.Sched.Ranges
import KernelProgramming.Proofs.Sched.Links
import KernelProgramming.Proofs.Sched.Invariant
import KernelProgramming.Proofs.Sched.Change
import KernelProgramming.Proofs.Sched.Reachable
import KernelProgramming.Proofs.Sched.Placement
import KernelProgramming.Proofs.Sched.Slices
import KernelProgramming.Proofs.Sched.ClassPolicy
import KernelProgramming.Proofs.Sched.Preempt
import KernelProgramming.Proofs.Sched.Accounting
import KernelProgramming.Proofs.Sched.Dispatch
import KernelProgramming.Proofs.Sched.RoundRobin
import KernelProgramming.Proofs.Sched.SaveRestore
import KernelProgramming.Proofs.Sched.RtQueue
import KernelProgramming.Proofs.Sched.RtRuns
import KernelProgramming.Proofs.Sched.RtOrder
import KernelProgramming.Proofs.Sched.RtFirst
import KernelProgramming.Proofs.Sched.BandwidthShares
import KernelProgramming.Proofs.Sched.BandwidthRuns
import KernelProgramming.Proofs.Sched.BandwidthRelease
import KernelProgramming.Proofs.Sched.Throttling
import KernelProgramming.Proofs.Sched.WakeQ
import KernelProgramming.Shell.Jobs
import KernelProgramming.Shell.Heap
import KernelProgramming.Shell.Resume
import KernelProgramming.Shell.Launch
import KernelProgramming.Shell.Command
import KernelProgramming.Shell.Input
import KernelProgramming.Shell.CmdLine
import KernelProgramming.Shell.Exec
import KernelProgramming.Shell.Access
import KernelProgramming.Shell.Main
import KernelProgramming.Proofs.Shell.Calls
import KernelProgramming.Proofs.Shell.JobList
import KernelProgramming.Proofs.Shell.Current
import KernelProgramming.Proofs.Shell.Statuses
import KernelProgramming.Proofs.Shell.Unlink
import KernelProgramming.Proofs.Shell.Resume
import KernelProgramming.Proofs.Shell.Leak
import KernelProgramming.Proofs.Shell.Wiring
import KernelProgramming.Proofs.Shell.Trim
import KernelProgramming.Proofs.Shell.Lines
import KernelProgramming.Proofs.Shell.Scan
import KernelProgramming.Proofs.Shell.Items
import KernelProgramming.Proofs.Shell.Split
import KernelProgramming.Proofs.Shell.Quoting
import KernelProgramming.Proofs.Shell.Trailing
import KernelProgramming.Proofs.Shell.Builtins
import KernelProgramming.Proofs.Shell.Accesses
import KernelProgramming.Proofs.Shell.Elements
import KernelProgramming.Proofs.Shell.Inside
import KernelProgramming.Proofs.Shell.Capacity
import KernelProgramming.Proofs.Shell.Plan
import KernelProgramming.Proofs.Shell.MainLoop
import KernelProgramming.Proofs.Shell.ExitStatus
import KernelProgramming.Xmerge.Files
import KernelProgramming.Xmerge.Merge
import KernelProgramming.Xmerge.Fetch
import KernelProgramming.Proofs.Xmerge.Steps
import KernelProgramming.Proofs.Xmerge.Agree
import KernelProgramming.Proofs.Xmerge.Chunks
import KernelProgramming.Proofs.Xmerge.Concat
import KernelProgramming.Proofs.Xmerge.Alias
import KernelProgramming.Proofs.Xmerge.Transfers
import KernelProgramming.Proofs.Xmerge.Exits
import KernelProgramming.Proofs.Xmerge.Limit
import KernelProgramming.Proofs.Xmerge.Count
import KernelProgramming.Proofs.Xmerge.Fetch
import KernelProgramming.Ps.Myps
import KernelProgramming.Proofs.Ps.Table
import KernelProgramming.Proofs.Ps.Stat
import KernelProgramming.Labs.Mysum
import KernelProgramming.Labs.Scull
import KernelProgramming.Labs.ScullFlat
import KernelProgramming.Proofs.Labs.Mysum
import KernelProgramming.Proofs.Labs.ScullMemory
import KernelProgramming.Proofs.Labs.ScullFile
import KernelProgramming.Proofs.Labs.ScullRuns
import KernelProgramming.Proofs.Labs.ScullStore
import KernelProgramming.Proofs.Labs.ScullText
