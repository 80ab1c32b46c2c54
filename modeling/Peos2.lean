import Peos2.Arp.Waiters
import Peos2.Ipv4.Expiry
import Peos2.Kernel.Elf
import Peos2.Kernel.MapEntries
import Peos2.Kernel.Notification
import Peos2.Kernel.OpenFiles
import Peos2.Kernel.QueueCalls
import Peos2.Kernel.Printing
import Peos2.Kernel.Reception
import Peos2.Kernel.RoundRobin
import Peos2.Kernel.TxRing
import Peos2.Kernel.Waiting
import Peos2.Net.Recovery
import Peos2.Programs.Input
import Peos2.Support.P2String
import Peos2.Support.PoolCopy
import Peos2.Tcp.Deduplication
import Peos2.Tcp.Delivery
import Peos2.Tcp.Demux
import Peos2.Tcp.FrontSegment
import Peos2.Tcp.IdleAcks
import Peos2.Tcp.ReceiveWindow
import Peos2.Tcp.SendStream
import Peos2.Tcp.WriteBack
