import Zaytos.Acpi.Madt
import Zaytos.Acpi.Survey
import Zaytos.Acpi.SurveyRuns
import Zaytos.Common.Addr
import Zaytos.Common.Complete
import Zaytos.Common.Env
import Zaytos.Ext2.AllocRuns
import Zaytos.Ext2.AllocSpec
import Zaytos.Ext2.AppendFails
import Zaytos.Ext2.AppendReads
import Zaytos.Ext2.AppendSpec
import Zaytos.Ext2.Chain
import Zaytos.Ext2.Consistent
import Zaytos.Ext2.CreateSpec
import Zaytos.Ext2.DirKeeps
import Zaytos.Ext2.DirWalk
import Zaytos.Ext2.Disk
import Zaytos.Ext2.FileBytes
import Zaytos.Ext2.FileKeeps
import Zaytos.Ext2.FileSpec
import Zaytos.Ext2.Geometry
import Zaytos.Ext2.Lookup
import Zaytos.Ext2.NameKeeps
import Zaytos.Ext2.NameSpec
import Zaytos.Ext2.Reader
import Zaytos.Ext2.ReaderSpec
import Zaytos.Ext2.RemoveKeeps
import Zaytos.Ext2.RemoveSpec
import Zaytos.Ext2.RemoveUnused
import Zaytos.Ext2.Resume
import Zaytos.Ext2.Runs
import Zaytos.Ext2.Scan
import Zaytos.Ext2.Types
import Zaytos.Ext2.Walk
import Zaytos.Ext2.Writer
import Zaytos.Kernel.AcceptOrder
import Zaytos.Kernel.BootMap
import Zaytos.Kernel.CallFollow
import Zaytos.Kernel.CallWaits
import Zaytos.Kernel.Coherence
import Zaytos.Kernel.Delivery
import Zaytos.Kernel.Dirents
import Zaytos.Kernel.DoubleFree
import Zaytos.Kernel.FileCalls
import Zaytos.Kernel.FileStream
import Zaytos.Kernel.Files
import Zaytos.Kernel.Follow
import Zaytos.Kernel.FrameArray
import Zaytos.Kernel.FrameRuns
import Zaytos.Kernel.FrameSpec
import Zaytos.Kernel.Frames
import Zaytos.Kernel.Getdents
import Zaytos.Kernel.Heap
import Zaytos.Kernel.HeapPartition
import Zaytos.Kernel.HeapPlan
import Zaytos.Kernel.HeapRuns
import Zaytos.Kernel.Idle
import Zaytos.Kernel.InterruptKey
import Zaytos.Kernel.Keyboard
import Zaytos.Kernel.Lifetimes
import Zaytos.Kernel.Loops
import Zaytos.Kernel.Machine
import Zaytos.Kernel.Mmap
import Zaytos.Kernel.MmapPages
import Zaytos.Kernel.MmapRuns
import Zaytos.Kernel.Modifiers
import Zaytos.Kernel.OpenFails
import Zaytos.Kernel.PageEntry
import Zaytos.Kernel.PageMap
import Zaytos.Kernel.PageOps
import Zaytos.Kernel.PageRefines
import Zaytos.Kernel.PageSurvey
import Zaytos.Kernel.PageTableSpec
import Zaytos.Kernel.PageTables
import Zaytos.Kernel.PageTree
import Zaytos.Kernel.PageWalk
import Zaytos.Kernel.PagingPlan
import Zaytos.Kernel.Pipe
import Zaytos.Kernel.PipeHolders
import Zaytos.Kernel.PipeRuns
import Zaytos.Kernel.Places
import Zaytos.Kernel.PlanSound
import Zaytos.Kernel.PollArray
import Zaytos.Kernel.Quarantine
import Zaytos.Kernel.ReceiveFails
import Zaytos.Kernel.Receives
import Zaytos.Kernel.ResolvePages
import Zaytos.Kernel.Ring
import Zaytos.Kernel.Scheduler
import Zaytos.Kernel.SendFd
import Zaytos.Kernel.Shm
import Zaytos.Kernel.Sleep
import Zaytos.Kernel.Socket
import Zaytos.Kernel.SocketOwners
import Zaytos.Kernel.SocketSpec
import Zaytos.Kernel.SocketStreams
import Zaytos.Kernel.Space
import Zaytos.Kernel.SpaceBook
import Zaytos.Kernel.SpaceFrames
import Zaytos.Kernel.StepFollow
import Zaytos.Kernel.SurveyLeaves
import Zaytos.Kernel.SurveyRanges
import Zaytos.Kernel.SurveyRows
import Zaytos.Kernel.SurveyWalk
import Zaytos.Kernel.Syscall
import Zaytos.Kernel.System
import Zaytos.Kernel.TlbRelease
import Zaytos.Kernel.TlbSafety
import Zaytos.Kernel.Touches
import Zaytos.Kernel.TypedInput
import Zaytos.Kernel.Unmet
import Zaytos.Kernel.UserPointer
import Zaytos.Kernel.UserStringArrays
import Zaytos.Kernel.UserStrings
import Zaytos.Kernel.Wait
import Zaytos.Kernel.Waits
import Zaytos.Kernel.WakeUps
import Zaytos.Lib.Bindings
import Zaytos.Lib.Bytes
import Zaytos.Lib.Carving
import Zaytos.Lib.Checked
import Zaytos.Lib.Coalesce
import Zaytos.Lib.CommonPrefix
import Zaytos.Lib.Counting
import Zaytos.Lib.Exec
import Zaytos.Lib.Intervals
import Zaytos.Lib.Ownership
import Zaytos.Lib.Pairing
import Zaytos.Lib.Radix
import Zaytos.Lib.Raster
import Zaytos.Lib.Recent
import Zaytos.Lib.Slices
import Zaytos.Lib.SlotQueue
import Zaytos.Lib.Terminated
import Zaytos.Lib.Threaded
import Zaytos.Lib.Transition
import Zaytos.Loader.Elf
import Zaytos.Loader.Environment
import Zaytos.Loader.InitialStack
import Zaytos.Loader.LoadFrames
import Zaytos.Loader.LoadProgram
import Zaytos.Shell.Candidates
import Zaytos.Shell.Completes
import Zaytos.Shell.Completion
import Zaytos.Shell.Editing
import Zaytos.Shell.Editor
import Zaytos.Shell.History
import Zaytos.Shell.HistoryKeys
import Zaytos.Shell.HistoryRuns
import Zaytos.Shell.Line
import Zaytos.Shell.LineShown
import Zaytos.Shell.LineSpec
import Zaytos.Shell.PathNames
import Zaytos.Terminal.Ansi
import Zaytos.Terminal.BackBuffer
import Zaytos.Terminal.Boundaries
import Zaytos.Terminal.Columns
import Zaytos.Terminal.Console
import Zaytos.Terminal.ConsoleSpec
import Zaytos.Terminal.CursorLine
import Zaytos.Terminal.CursorRuns
import Zaytos.Terminal.Dirty
import Zaytos.Terminal.Display
import Zaytos.Terminal.EditRuns
import Zaytos.Terminal.Edits
import Zaytos.Terminal.FlushRuns
import Zaytos.Terminal.Flushes
import Zaytos.Terminal.Font
import Zaytos.Terminal.Foreground
import Zaytos.Terminal.Framebuffer
import Zaytos.Terminal.Grid
import Zaytos.Terminal.Painted
import Zaytos.Terminal.ParserRuns
import Zaytos.Terminal.Reading
import Zaytos.Terminal.Repaint
import Zaytos.Terminal.Repainted
import Zaytos.Terminal.Screen
import Zaytos.Terminal.SgrOrder
import Zaytos.Terminal.Shown
import Zaytos.Terminal.Text
import Zaytos.Terminal.TextMode
import Zaytos.Terminal.Tokens
import Zaytos.Terminal.Totality
import Zaytos.Terminal.Transfer
import Zaytos.Terminal.Utf8
import Zaytos.Terminal.WholeChars
import Zaytos.Zi.Buffer
import Zaytos.Zi.BufferSpec
import Zaytos.Zi.CharacterRuns
import Zaytos.Zi.CharacterSteps
import Zaytos.Zi.Characters
import Zaytos.Zi.Editor
import Zaytos.Zi.EditorSpec
import Zaytos.Zi.Index
import Zaytos.Zi.Loading
import Zaytos.Zi.Pace
import Zaytos.Zi.Room
import Zaytos.Zi.Steps
import Zaytos.Zi.Unsaved
