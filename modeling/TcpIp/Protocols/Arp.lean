import TcpIp.Machine

/-!
# Ethernet and ARP (`src/protocols/ethernet.c`, `src/protocols/arp.c`)

The packed structures are read and written in place at their offsets:

* `struct eth_header`: `dst_mac` 0, `src_mac` 6, `ether_type` 12, `payload` 14.
* `struct arp_header`: `hw_type` 0, `pro_type` 2, `hw_size` 4, `pro_size` 5, `opcode` 6, `data` 8.
* `struct arp_ipv4`: `src_mac` 0, `src_ip` 6, `dst_mac` 10, `dst_ip` 16.

`arp_reply` turns a received request into the reply in the receive buffer itself.
-/

namespace TcpIp

open Bytes Prog

def ETH_P_IP : UInt16 := 0x0800
def ETH_P_ARP : UInt16 := 0x0806

/-- `x = htons(x)` or `x = ntohs(x)` in memory. -/
def swapField16 (p : Ptr) : M Unit := do
  let v ← loadU16 p
  storeU16 p (ntohs v)

/-- `x = htonl(x)` or `x = ntohl(x)` in memory. -/
def swapField32 (p : Ptr) : M Unit := do
  let v ← loadU32 p
  storeU32 p (ntohl v)

@[simp] theorem swapField16_bind {β : Type} (p : Ptr) (w : World) (f : Unit → M β) :
    (swapField16 p >>= f) w =
      f () (((w.touch p 2).touch p 2).write p (bytes16 (ntohs (w.u16 p)))) := rfl

@[simp] theorem swapField16_apply (p : Ptr) (w : World) : swapField16 p w =
    (.ok (), ((w.touch p 2).touch p 2).write p (bytes16 (ntohs (w.u16 p)))) := rfl

@[simp] theorem swapField32_bind {β : Type} (p : Ptr) (w : World) (f : Unit → M β) :
    (swapField32 p >>= f) w =
      f () (((w.touch p 4).touch p 4).write p (bytes32 (ntohl (w.u32 p)))) := rfl

def ethHeaderNtoh (header : Ptr) : M Unit := swapField16 (header + 12)

/-- `arp_header_fprint` reads every field of the header. -/
def arpHeaderFprint (header : Ptr) : M Unit := touch header 8

@[simp] theorem arpHeaderFprint_bind {β : Type} (p : Ptr) (w : World) (f : Unit → M β) :
    (arpHeaderFprint p >>= f) w = f () (w.touch p 8) := rfl

def arpHeaderHton (header : Ptr) : M Unit := do
  swapField16 (header + 6)
  swapField16 header
  swapField16 (header + 2)

def arpHeaderNtoh (header : Ptr) : M Unit := do
  swapField16 (header + 6)
  swapField16 header
  swapField16 (header + 2)

/-- `sizeof(struct arp_header) + sizeof(struct arp_ipv4)`. -/
def sizeofArpMessage : Nat := 28

def arpReply (header : Ptr) : M Unit := do
  let content := header + 8
  -- Change dest to sender
  let srcIp ← loadU32 (content + 6)
  storeU32 (content + 16) srcIp
  let srcMac ← loadMac content
  storeMac (content + 10) srcMac
  -- Change src to us
  let ip ← netInterfaceGetIp
  storeU32 (content + 6) ip
  let mac ← netInterfaceGetMac
  storeMac content mac
  storeU16 (header + 6) ARP_REPLY
  arpHeaderFprint header
  arpHeaderHton header
  let dstMac ← loadMac (content + 10)
  netInterfaceSend header sizeofArpMessage dstMac ETH_P_ARP

/-- `arp_receive` from the check of the opcode on. -/
def arpReceiveOpcode (header : Ptr) : M Unit := do
  let opcode ← loadU16 (header + 6)
  if opcode = ARP_REQUEST then arpReply header
  else if opcode = ARP_REPLY then pure ()
  else touch (header + 6) 2

/-- `arp_receive` from the check of the target address on: `merge_flag` says that the sender's
entry was overwritten. -/
def arpReceiveTarget (header : Ptr) (proType : UInt16) (srcIp : UInt32) (mergeFlag : Bool) :
    M Unit := do
  let content := header + 8
  let dstIp ← loadU32 (content + 16)
  let ip ← netInterfaceGetIp
  if dstIp = ip then
    if mergeFlag then pure ()
    else
      touch (content + 6) 4
      let srcMac ← loadMac content
      cacheUpdate (addToArpCache proType srcIp srcMac)
    arpReceiveOpcode header
  else pure ()

/-- `arp_receive` of a message for IPv4 over Ethernet. -/
def arpReceiveIpv4 (header : Ptr) (proType : UInt16) : M Unit := do
  let content := header + 8
  let srcIp ← loadU32 (content + 6)
  let inCache ← cacheQuery (isInArpCache proType srcIp)
  if inCache then
    let srcMac ← loadMac content
    cacheUpdate (setInArpCache proType srcIp srcMac)
    arpReceiveTarget header proType srcIp true
  else arpReceiveTarget header proType srcIp false

/-- `arp_receive` from the check of the protocol type on. -/
def arpReceiveProtocol (header : Ptr) : M Unit := do
  let proType ← loadU16 (header + 2)
  let proSize ← loadU8 (header + 5)
  if proType = ARP_IPV4 ∧ proSize = 4 then arpReceiveIpv4 header proType
  else touch header 8

def arpReceive (ethHeader : Ptr) : M Unit := do
  let header := ethHeader + 14
  arpHeaderNtoh header
  arpHeaderFprint header
  let hwType ← loadU16 header
  let hwSize ← loadU8 (header + 4)
  if hwType = ARP_ETHERNET ∧ hwSize = 6 then arpReceiveProtocol header
  else touch header 8

/-- The broadcast request that `arp_resolve_ipv4` builds in a fresh block. -/
def arpRequest (ipv4 : UInt32) : M Unit := do
  let header : Ptr := ⟨.request, 0⟩
  let content := header + 8
  callocObj .request
  storeU16 header ARP_ETHERNET
  storeU8 (header + 4) 6
  storeU16 (header + 2) ARP_IPV4
  storeU8 (header + 5) 4
  storeU16 (header + 6) ARP_REQUEST
  arpHeaderHton header
  -- Change dest to target to resolve
  storeU32 (content + 16) ipv4
  -- Change mac address to broadcast address
  storeMac (content + 10) BROADCAST
  -- Change src to us
  let ip ← netInterfaceGetIp
  storeU32 (content + 6) ip
  let mac ← netInterfaceGetMac
  storeMac content mac
  netInterfaceBroadcast header sizeofArpMessage ETH_P_ARP

/-- The MAC address of `ipv4` if it is cached. If not, a request goes out and the result is
`NULL`. -/
def arpResolveIpv4 (ipv4 : UInt32) : M CellRef := do
  let inCache ← cacheQuery (isInArpCache ARP_IPV4 ipv4)
  if inCache then cacheQuery (cacheGet ARP_IPV4 ipv4)
  else
    arpRequest ipv4
    return none

/-- The six bytes a cell pointer points to. -/
def derefMac (cell : Nat) : M Mac := Prog.gets fun w => w.cache.cells.getD cell (Vector.replicate 6 0)

end TcpIp
