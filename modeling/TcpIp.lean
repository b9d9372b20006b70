import TcpIp.Lib.OpenAddressing
import TcpIp.Collections.Hashmap
import TcpIp.Collections.HashmapLemmas
import TcpIp.Collections.HashmapRefine
import TcpIp.Lib.Bytes
import TcpIp.Lib.OnesComplement
import TcpIp.Basic
import TcpIp.Lib.Prog
import TcpIp.NetInterface
import TcpIp.Protocols.ArpCache
import TcpIp.Utils.Protocols
import TcpIp.Machine
import TcpIp.Main
import TcpIp.Protocols.ArpSpec
import TcpIp.Protocols.ArpReceive
import TcpIp.ProcessIo
import TcpIp.Protocols.ArpRefine
import TcpIp.Protocols.ArpNetwork
import TcpIp.Protocols.IpReceive
import TcpIp.Run
import TcpIp.Protocols.Echo
import TcpIp.Protocols.IpRoundTrip
import TcpIp.Reception
import TcpIp.Bounds
import TcpIp.Reaction
import TcpIp.Isolation
import TcpIp.Lib.Trace
import TcpIp.SendConc
import TcpIp.Protocols.ArpConc
import TcpIp.Utils.Checksum
import TcpIp.Protocols.Checksum
import TcpIp.Protocols.TcpCheck
import TcpIp.Collections.HashmapRemove
import TcpIp.Protocols.ArpResolution
import TcpIp.QueueConc
import TcpIp.Storm
import TcpIp.Collections.LinkedList
import TcpIp.Collections.HashmapIterator
import TcpIp.Collections.LinkedListIterator
import TcpIp.Collections.LinkedListConcat
import TcpIp.Collections.HashmapExpand
import TcpIp.Collections.HashmapKeys
import TcpIp.Protocols.ArpKeys
import TcpIp.Protocols.IpDatagram
import TcpIp.Protocols.TcpHeader
import TcpIp.Protocols.IpSize
import TcpIp.Configuration
import TcpIp.RxBuffer
import TcpIp.StackNetwork
import TcpIp.Collections.HashmapEntries
import TcpIp.Lib.Ledger
import TcpIp.CacheRun
import TcpIp.Destroy
import TcpIp.Lib.Locked
import TcpIp.QueueLock
import TcpIp.Ping
import TcpIp.TunDevice
import TcpIp.Protocols.ArpProbes
import TcpIp.Protocols.ArpThreads
import TcpIp.Protocols.ArpThreadsSafe
import TcpIp.Protocols.ArpAlone
import TcpIp.Lib.Reactive
import TcpIp.HostMachine
import TcpIp.Lib.Bits
import TcpIp.Protocols.Detection
import TcpIp.Collections.HashmapGrowth
import TcpIp.Lib.Blocks
import TcpIp.SendBlocks
import TcpIp.SendBlocksSafe
import TcpIp.Collections.HashmapWrites
import TcpIp.Collections.HashmapConc
import TcpIp.Collections.HashmapUnlocked
