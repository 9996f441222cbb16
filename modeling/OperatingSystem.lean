import OperatingSystem.Library.Run
import OperatingSystem.Library.Scheduler
import OperatingSystem.Library.Result
import OperatingSystem.Library.Bytes
import OperatingSystem.Library.Prog
import OperatingSystem.Library.Ownership
import OperatingSystem.Library.Ring
import OperatingSystem.Library.Linked
import OperatingSystem.Fs.Written
import OperatingSystem.Fs.Release
import OperatingSystem.Webserver.Shutdown
import OperatingSystem.Webserver.Transparent
import OperatingSystem.Webserver.Found
import OperatingSystem.Threads.Conditions
import OperatingSystem.Fs.Inodes
import OperatingSystem.Fs.ReadData
import OperatingSystem.Fs.Mapping
import OperatingSystem.Fs.WriteFrame
import OperatingSystem.Fs.WriteReport
import OperatingSystem.Fs.SizeLimit
import OperatingSystem.Fs.Dir
import OperatingSystem.Library.Tree
import OperatingSystem.Fs.BitmapHistory
import OperatingSystem.Fs.Allocations
import OperatingSystem.Fs.FileCommands
import OperatingSystem.Fs.Answers
import OperatingSystem.Fs.Consistent
import OperatingSystem.Fs.Records
import OperatingSystem.Fs.Held
import OperatingSystem.Fs.Listing
import OperatingSystem.Fs.Paths
import OperatingSystem.Library.Words
import OperatingSystem.Fs.InodeCache
import OperatingSystem.Fs.CommandLine
import OperatingSystem.Fs.RangeCheck
import OperatingSystem.Webserver.Evict
import OperatingSystem.Webserver.Hash
import OperatingSystem.Threads.Created
import OperatingSystem.Threads.StackUse
import OperatingSystem.Library.Chain
import OperatingSystem.Library.Strand
import OperatingSystem.Threads.Nodes
import OperatingSystem.Threads.Fifo
import OperatingSystem.Threads.ReadyNodes
import OperatingSystem.Threads.ReadyList
import OperatingSystem.Threads.Contexts
import OperatingSystem.Threads.Restored
import OperatingSystem.Threads.YieldResult
import OperatingSystem.Threads.Statements
import OperatingSystem.Threads.Masked
import OperatingSystem.Threads.Interrupts
import OperatingSystem.Threads.Subscripts
import OperatingSystem.Warmup.Points
import OperatingSystem.Warmup.Sorted
import OperatingSystem.Warmup.Removal
import OperatingSystem.Webserver.Headers
import OperatingSystem.Warmup.WordTable
import OperatingSystem.Warmup.Scan
import OperatingSystem.Fs.Represents
import OperatingSystem.Fs.Sessions
import OperatingSystem.Fs.Reopened
import OperatingSystem.Fs.Returns
import OperatingSystem.Fs.Steps
import OperatingSystem.Fs.Affords
import OperatingSystem.Fs.Started
import OperatingSystem.Fs.Seen
import OperatingSystem.Fs.Settled
import OperatingSystem.Fs.Histories
import OperatingSystem.Fs.Entries
import OperatingSystem.Fs.Reopened
