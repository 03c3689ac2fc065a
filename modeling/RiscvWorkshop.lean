import RiscvWorkshop.Run
import RiscvWorkshop.KernelBase
import RiscvWorkshop.BuddyTiling
import RiscvWorkshop.PageFrameRuns
import RiscvWorkshop.PageFrameUseCount
import RiscvWorkshop.PageFrameMerge
import RiscvWorkshop.PageFrameUsage
import RiscvWorkshop.RadixWalk
import RiscvWorkshop.PageTableRuns
import RiscvWorkshop.PageTableFailure
import RiscvWorkshop.PageTableUnmap
import RiscvWorkshop.IrqPriority
import RiscvWorkshop.Plic
import RiscvWorkshop.TimerRuns
import RiscvWorkshop.ThreadIdRuns
import RiscvWorkshop.ProcessRuns
import RiscvWorkshop.MutexRuns
import RiscvWorkshop.ThreadWaitRuns
import RiscvWorkshop.SlabRuns
import RiscvWorkshop.SchedRuns
import RiscvWorkshop.IrqCtrlrCounts
import RiscvWorkshop.CpuInfo
import RiscvWorkshop.VmStrlen
import RiscvWorkshop.VmMemmove
import RiscvWorkshop.VmMapUserpage
import RiscvWorkshop.VmUnmap
import RiscvWorkshop.VmCopyRangeRuns
import RiscvWorkshop.IrqReentryRuns
import RiscvWorkshop.PageOrder
import RiscvWorkshop.SlabSize
import RiscvWorkshop.SpinLock
import RiscvWorkshop.PageFrameFind
import RiscvWorkshop.PageFrameReserve
import RiscvWorkshop.PageFrameReserveRuns
import RiscvWorkshop.PageFrameLocks
import RiscvWorkshop.LinkedList
import RiscvWorkshop.SlabLayout
import RiscvWorkshop.SlabMemory
import RiscvWorkshop.SlabPlaced
import RiscvWorkshop.Memset
import RiscvWorkshop.Memmove
import RiscvWorkshop.StringCopy
import RiscvWorkshop.StringSearch
import RiscvWorkshop.StringCompare
import RiscvWorkshop.FixedPoint
import RiscvWorkshop.StringSpan
import RiscvWorkshop.StringTokens
import RiscvWorkshop.StringTokenRuns
import RiscvWorkshop.TimerClock
import RiscvWorkshop.CircularList
import RiscvWorkshop.QueueAddSort
import RiscvWorkshop.QueueRuns
import RiscvWorkshop.BitmapSearch
import RiscvWorkshop.ReadyQueue
import RiscvWorkshop.ThreadInfo
import RiscvWorkshop.DispatchRuns
import RiscvWorkshop.EventRuns
import RiscvWorkshop.WaitQueue
import RiscvWorkshop.PlicMask
import RiscvWorkshop.ProcessAllocateFailure
import RiscvWorkshop.PageCacheSteps
import RiscvWorkshop.PageCacheShrink
import RiscvWorkshop.PageCacheWaiters
import RiscvWorkshop.RbTreeRuns
import RiscvWorkshop.EpochTimeRight
import RiscvWorkshop.KprintfBounds
import RiscvWorkshop.SlabDoubleFree
