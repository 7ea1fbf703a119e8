import Keow.Base.Align
import Keow.Base.BitField
import Keow.Base.BitSet
import Keow.Base.Chain
import Keow.Base.Chunks
import Keow.Base.Codec
import Keow.Base.Comp
import Keow.Base.Handles
import Keow.Base.Int32
import Keow.Base.Ledger
import Keow.Base.Memory
import Keow.Base.Moves
import Keow.Base.Patch
import Keow.Base.PathTree
import Keow.Base.PrefixCode
import Keow.Base.Prog
import Keow.Base.Recorder
import Keow.Base.Related
import Keow.Base.Rooted
import Keow.Base.Run
import Keow.Base.StringArray
import Keow.Base.Tabulate
import Keow.Base.VirtualMemory
import Keow.Console.Attributes
import Keow.Console.Chunk
import Keow.Console.Commands
import Keow.Console.Cons25
import Keow.Console.Cursor
import Keow.Console.Display
import Keow.Console.Edits
import Keow.Console.InStep
import Keow.Console.Input
import Keow.Console.Ioctl
import Keow.Console.Keyboard
import Keow.Console.Parameters
import Keow.Console.Pump
import Keow.Console.ScreenBuffer
import Keow.Console.Sequence
import Keow.Console.Settles
import Keow.Console.Translation
import Keow.Exec.Arguments
import Keow.Exec.CommandLine
import Keow.Exec.Contained
import Keow.Exec.Elf
import Keow.Exec.Execve
import Keow.Exec.Image
import Keow.Exec.Layout
import Keow.Exec.Libraries
import Keow.Exec.Lookup
import Keow.Exec.Release
import Keow.Exec.Script
import Keow.Exec.Segments
import Keow.Exec.Startup
import Keow.Files.Append
import Keow.Files.Bounds
import Keow.Files.Calls
import Keow.Files.Directory
import Keow.Files.Duplicate
import Keow.Files.Exclusive
import Keow.Files.Flags
import Keow.Files.FreeSlots
import Keow.Files.GenericStatic
import Keow.Files.Handler
import Keow.Files.NonBlocking
import Keow.Files.Pipes
import Keow.Files.Proc
import Keow.Files.Refers
import Keow.Files.Seek
import Keow.Files.Select
import Keow.Files.SharedPointer
import Keow.Files.Sharing
import Keow.Files.Slots
import Keow.Files.StaticData
import Keow.Files.Timeout
import Keow.Files.Transfers
import Keow.Files.Win32
import Keow.Files.Worlds
import Keow.Files.Writev
import Keow.Kernel.CharString
import Keow.Kernel.Context
import Keow.Kernel.Family
import Keow.Kernel.Groups
import Keow.Kernel.LinkedList
import Keow.Kernel.Linux
import Keow.Kernel.ListRun
import Keow.Kernel.Nanosleep
import Keow.Kernel.Pids
import Keow.Kernel.Process
import Keow.Kernel.SignalSet
import Keow.Kernel.Table
import Keow.Kernel.Wait
import Keow.Memory.Allocate
import Keow.Memory.Calls
import Keow.Memory.Committed
import Keow.Memory.Failure
import Keow.Memory.Faults
import Keow.Memory.Fork
import Keow.Memory.Halting
import Keow.Memory.InitialStack
import Keow.Memory.Ldt
import Keow.Memory.LdtEntry
import Keow.Memory.LdtStable
import Keow.Memory.MapFile
import Keow.Memory.Pieces
import Keow.Memory.ReadString
import Keow.Memory.Recorded
import Keow.Memory.StringList
import Keow.Memory.Transfer
import Keow.Memory.Unmap
import Keow.Paths.Canonical
import Keow.Paths.Element
import Keow.Paths.Escape
import Keow.Paths.Getcwd
import Keow.Paths.Innermost
import Keow.Paths.Links
import Keow.Paths.Mount
import Keow.Paths.Readlink
import Keow.Paths.Umount
import Keow.Perms.Atomic
import Keow.Perms.Ids
import Keow.Signal.Blocked
import Keow.Signal.Calls
import Keow.Signal.Deliver
import Keow.Signal.Dispatch
import Keow.Signal.Exception
import Keow.Signal.Kill
import Keow.Signal.Loop
import Keow.Signal.Mask
import Keow.Signal.Nesting
import Keow.Signal.Numbers
import Keow.Signal.Procmask
import Keow.Signal.Ptrace
import Keow.Signal.Sends
import Keow.Signal.StopAndGo
import Keow.Signal.Termination
import Keow.Signal.Tracer
import Keow.Signal.Wakeup
import Keow.Signal.WriteBack
import Keow.Stub.Functions
import Keow.Stub.Remote
