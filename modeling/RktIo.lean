import RktIo.Mem.MremapContents
import RktIo.Mem.FileMmap
import RktIo.Sched.FutexWakeup
import RktIo.Sched.FutexRequeue
import RktIo.Sched.FutexErrors
import RktIo.Sched.SingleOwner
import RktIo.Sched.Cancel
import RktIo.Sched.Strand
import RktIo.Sched.JoinValue
import RktIo.Sched.Lifetime
import RktIo.Lkl.Pinning
import RktIo.Sync.TicketLock
import RktIo.Host.Delivery
import RktIo.Host.ReturnQueue
import RktIo.Sgx.ConfigCover
import RktIo.Host.ArenaCalls
import RktIo.Shared.SizeStr
import RktIo.Ring.Reserve
import RktIo.Ring.Drained
import RktIo.Config.Maximum
import RktIo.Cmd.Faithful
import RktIo.Attest.Nonce
import RktIo.Run.Affinity
import RktIo.Run.Getopt
import RktIo.Run.ItemRoundTrip
import RktIo.Run.LoadElf
import RktIo.Lkl.Shutdown
import RktIo.Lkl.BlkTransfer
import RktIo.Lkl.VirtioProcess
import RktIo.Lkl.NetInterest
import RktIo.Sgx.Permissions
import RktIo.Sgx.EnclaveLayout
import RktIo.Sgx.HeapSize
import RktIo.Sgx.Sigstruct
import RktIo.Sgx.Cpuid
import RktIo.Wg.AddPeers
import RktIo.Spdk.Context
import RktIo.Lkl.Sysctl
