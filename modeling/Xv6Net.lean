import Xv6Net.Lib.ListSeg
import Xv6Net.Lib.Run
import Xv6Net.Lib.OnesComplement
import Xv6Net.Kernel.Defs
import Xv6Net.E1000.Tx
import Xv6Net.E1000.Rx
import Xv6Net.E1000.TxRing
import Xv6Net.Vm.Walk
import Xv6Net.Vm.Copy
import Xv6Net.Net.Store
import Xv6Net.Net.Send
import Xv6Net.Net.System
import Xv6Net.Net.Spec
import Xv6Net.Net.StoreRep
import Xv6Net.Net.StoreOps
import Xv6Net.Net.Ownership
import Xv6Net.Net.PortStore
import Xv6Net.Net.SendPath
import Xv6Net.Net.Receive
import Xv6Net.Net.Cksum
import Xv6Net.Net.Fifo
import Xv6Net.Net.Service
import Xv6Net.Net.TxPath
import Xv6Net.Net.TxBuffers
import Xv6Net.Sched.Table
import Xv6Net.Sched.RecvWait
import Xv6Net.Sched.Refine
import Xv6Net.Sched.Machine
import Xv6Net.Client.Dns
import Xv6Net.Client.DnsQuery
