import SpaghettiOS.Clock.Timer
import SpaghettiOS.VM.Paging
import SpaghettiOS.VM.Fault
import SpaghettiOS.VM.Sweep
import SpaghettiOS.VM.Usage
import SpaghettiOS.VM.Bookkeeping
import SpaghettiOS.VM.Consistency
import SpaghettiOS.VM.Interleaving
import SpaghettiOS.Clock.Callbacks
import SpaghettiOS.Fs.Console
import SpaghettiOS.Fs.Handles
import SpaghettiOS.Proc.LifeCycle
import SpaghettiOS.Proc.Teardown
import SpaghettiOS.Proc.Waiting
import SpaghettiOS.Proc.Wakeups
import SpaghettiOS.VM.ElfLoad
import SpaghettiOS.VM.Footprint
import SpaghettiOS.VM.FreeFrames
import SpaghettiOS.VM.Image
import SpaghettiOS.VM.Mmap
import SpaghettiOS.VM.Rights
import SpaghettiOS.Clock.Ids
import SpaghettiOS.Cspace.Allocation
import SpaghettiOS.Cspace.Bootstrap
import SpaghettiOS.Cspace.FirstFree
import SpaghettiOS.Proc.Replies
import SpaghettiOS.Fs.Closing
import SpaghettiOS.Fs.Lookups
import SpaghettiOS.Fs.Writes
import SpaghettiOS.Lib.Linked
import SpaghettiOS.Ut.Classes
import SpaghettiOS.VM.Agreement
import SpaghettiOS.VM.Unsaved
import SpaghettiOS.VM.RefBits
import SpaghettiOS.VM.TableMap
import SpaghettiOS.Clock.Periods
import SpaghettiOS.Clock.Sleep
import SpaghettiOS.VM.FlatMemory
import SpaghettiOS.VM.Layout
import SpaghettiOS.VM.MapErrors
import SpaghettiOS.VM.Munmap
import SpaghettiOS.VM.SecondChance
import SpaghettiOS.VM.TableBuild
import SpaghettiOS.VM.TableHistory
import SpaghettiOS.VM.BufferInit
import SpaghettiOS.Fs.UserLibrary
import SpaghettiOS.Proc.Start
import SpaghettiOS.Proc.Status
import SpaghettiOS.VM.Pagefile
import SpaghettiOS.Fs.Serial
import SpaghettiOS.Fs.Vectored
import SpaghettiOS.Dev.Dma
import SpaghettiOS.VM.ElfRead
import SpaghettiOS.VM.Segment
import SpaghettiOS.Picoro.Refinement
