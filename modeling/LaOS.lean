import LaOS.ArpCache
import LaOS.ElfAllOrNothing
import LaOS.HeapRuns
import LaOS.IcmpReply
import LaOS.InitrdRoundTrip
import LaOS.LafsPaths
import LaOS.LafsRead
import LaOS.MmapRollback
import LaOS.MmioWindows
import LaOS.ModuleRegistry
import LaOS.MutexFreshness
import LaOS.PciCapabilities
import LaOS.PmmAccounting
import LaOS.RcuGracePeriod
import LaOS.RcuListRuns
import LaOS.ReceiveOrder
import LaOS.RootSwitchRuns
import LaOS.RoundRobin
import LaOS.RunqueueExit
import LaOS.SleepTimeout
import LaOS.SpinLock
import LaOS.SysWrite
import LaOS.TaskArguments
import LaOS.TaskContexts
import LaOS.TlbShootdown
import LaOS.TransmitRing
import LaOS.UserRights
import LaOS.VirtioBlock
import LaOS.VmmRefinement
import LaOS.VmmUnmap
