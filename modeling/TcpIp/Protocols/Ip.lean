import TcpIp.Protocols.Arp
import TcpIp.Utils.Protocols

/-!
# IPv4, ICMP, TCP and UDP (`src/protocols/ip.c`, `icmp.c`, `tcp.c`, `udp.c`)

* `struct ip_header`: `version_and_header_len` 0, `service_type` 1, `len` 2, `index` 4,
  `flags_and_fragment_offset` 6, `ttl` 8, `protocol` 9, `checksum` 10, `src_addr` 12,
  `dst_addr` 16, `payload` 20.
* `struct icmp_v4`: `type` 0, `code` 1, `checksum` 2, `data` 4.
* `struct tcp_header`: `src_port` 0, `dst_port` 2, `seq_num` 4, `ack_num` 8, `reserved` 12,
  `window` 14, `checksum` 16, `urgent_ptr` 18, `options_and_padding` 20; 24 bytes.
* `struct udp_header`: 8 bytes.

The length of a payload is computed in `size_t` and passed on as a 32-bit count. An echo request is
turned into its reply in the receive buffer.
-/

namespace TcpIp

open Bytes Prog

def PROTOCOL_ICMP : UInt8 := 1
def PROTOCOL_TCP : UInt8 := 6
def PROTOCOL_UDP : UInt8 := 16

/-- `sizeof(struct ip_header)`. -/
def sizeofIpHeader : Nat := 20

/-! ## IPv4 headers -/

def ipHeaderGetVersion (v : UInt8) : UInt8 := (v >>> 4) &&& 0xf

def ipHeaderGetHeaderLength (v : UInt8) : UInt8 := v &&& 0xf

/-- `header->len - sizeof(struct ip_header)`, in `size_t`. -/
def ipHeaderGetPayloadLength (len : UInt16) : Nat := (len.toNat + 2 ^ 64 - sizeofIpHeader) % 2 ^ 64

/-- The payload length as the `uint32_t` it is passed as. -/
def payloadLength32 (len : UInt16) : Nat := ipHeaderGetPayloadLength len % 2 ^ 32

def ipHeaderUpdateChecksum (header : Ptr) : M Unit := do
  storeU16 (header + 10) 0
  let bytes ← loadBytes header sizeofIpHeader
  storeU16 (header + 10) (internetChecksum bytes)

def ipHeaderCheck (header : Ptr) : M Bool := do
  let bytes ← loadBytes header sizeofIpHeader
  return internetChecksum bytes == 0

def ipHeaderNtoh (header : Ptr) : M Unit := do
  swapField32 (header + 12)
  swapField32 (header + 16)
  swapField16 (header + 2)

def ipHeaderHton (header : Ptr) : M Unit := do
  swapField32 (header + 12)
  swapField32 (header + 16)
  swapField16 (header + 2)

/-- `ip_header_alloc`: `len` arrives as a `uint16_t`. -/
def ipHeaderAlloc (len : UInt16) : M Unit := do
  let header : Ptr := ⟨.packet, 0⟩
  callocObj .packet
  storeU8 header (((4 : UInt8) <<< 4) + 5)
  storeU8 (header + 1) 0
  storeU16 (header + 2) (UInt16.ofNat (sizeofIpHeader + len.toNat))
  storeU16 (header + 4) 7
  storeU16 (header + 6) 0
  storeU8 (header + 8) 64
  storeU8 (header + 9) 0
  storeU16 (header + 10) 0
  storeU32 (header + 12) 0
  storeU32 (header + 16) 0
  let bytes ← loadBytes header sizeofIpHeader
  storeU16 (header + 10) (internetChecksum bytes)

/-! ## Sending -/

/-- `ip_send_packet`: the packet is sent when the destination's MAC address is cached, and the
process exits when it is not. -/
def ipSendPacket (header : Ptr) : M Unit := do
  let dstAddr ← loadU32 (header + 16)
  let realLen ← loadU16 (header + 2)
  let dstMac ← arpResolveIpv4 (htonl dstAddr)
  match dstMac with
  | none =>
    touch (header + 16) 4
    Prog.stop (.exit 1)
  | some cell =>
    ipHeaderHton header
    ipHeaderUpdateChecksum header
    let mac ← derefMac cell
    netInterfaceSend header realLen.toNat mac ETH_P_IP

/-- `ip_send` of the `len` bytes `payload`. -/
def ipSend (dst : UInt32) (payload : List UInt8) (protocol : UInt32) : M Unit := do
  let header : Ptr := ⟨.packet, 0⟩
  ipHeaderAlloc (UInt16.ofNat payload.length)
  storeU8 (header + 9) protocol.toUInt8
  let ip ← netInterfaceGetIp
  storeU32 (header + 12) (ntohl ip)
  storeU32 (header + 16) dst
  storeBytes (header + 20) payload
  ipSendPacket header

/-! ## ICMP -/

def ICMP_ECHO_REPLY : UInt8 := 0
def ICMP_ECHO_REQUEST : UInt8 := 8
def ICMP_DESTINATION_UNREACHABLE : UInt8 := 3

def icmpCheck (header : Ptr) (len : Nat) : M Bool := do
  let bytes ← loadBytes header len
  return internetChecksum bytes == 0

def receiveEchoRequest (ipHeader header : Ptr) : M Unit := do
  let ipLen ← loadU16 (ipHeader + 2)
  let len := payloadLength32 ipLen
  storeU8 header ICMP_ECHO_REPLY
  storeU16 (header + 2) 0
  let bytes ← loadBytes header len
  storeU16 (header + 2) (internetChecksum bytes)
  let srcAddr ← loadU32 (ipHeader + 12)
  storeU32 (ipHeader + 16) srcAddr
  let ip ← netInterfaceGetIp
  storeU32 (ipHeader + 12) (ntohl ip)
  ipSendPacket ipHeader

def icmpReceive (ipHeader : Ptr) : M Unit := do
  let header := ipHeader + 20
  let ipLen ← loadU16 (ipHeader + 2)
  let valid ← icmpCheck header (payloadLength32 ipLen)
  if valid then
    let type ← loadU8 header
    if type = ICMP_ECHO_REQUEST then receiveEchoRequest ipHeader header
    else touch header 1
  else pure ()

/-! ## TCP and UDP -/

def TCP_CONTROL_SYN : UInt16 := 32

/-- `tcp_header_fprint` reads every field of the header. -/
def tcpHeaderFprint (header : Ptr) : M Unit := touch header 24

def tcpHeaderCheck (ipHeader header : Ptr) : M Bool := do
  let ipLen ← loadU16 (ipHeader + 2)
  let len := payloadLength32 ipLen
  let bytes ← loadBytes header len
  let srcAddr ← loadU32 (ipHeader + 12)
  let dstAddr ← loadU32 (ipHeader + 16)
  let sum : UInt32 := (sum16 bytes).toUInt32 + (htons (UInt16.ofNat len)).toUInt32 +
    (htons PROTOCOL_TCP.toUInt16).toUInt32 + htonl srcAddr + htonl dstAddr
  storeU32 ⟨.sum, 0⟩ sum
  let sumBytes ← loadBytes ⟨.sum, 0⟩ 4
  return internetChecksum sumBytes == 0

/-- `x = ntohs(x)` of a 32-bit field: the argument is truncated to 16 bits. -/
def swapField32As16 (p : Ptr) : M Unit := do
  let v ← loadU32 p
  storeU32 p (ntohs v.toUInt16).toUInt32

def tcpHeaderNtoh (header : Ptr) : M Unit := do
  swapField32As16 (header + 4)
  swapField32As16 (header + 8)
  swapField16 (header + 2)
  swapField16 header

def tcpHeaderGetControlBits (reserved : UInt16) : UInt16 := reserved &&& 63

/-- `tcp_receive`; the result is whether the segment is logged as a SYN attempt. -/
def tcpReceive (ipHeader : Ptr) : M Bool := do
  let header := ipHeader + 20
  let valid ← tcpHeaderCheck ipHeader header
  if valid then
    tcpHeaderNtoh header
    tcpHeaderFprint header
    let reserved ← loadU16 (header + 12)
    return tcpHeaderGetControlBits reserved == TCP_CONTROL_SYN
  else
    tcpHeaderFprint header
    return false

/-- `udp_receive` only prints the header. -/
def udpReceive (ipHeader : Ptr) : M Unit := touch (ipHeader + 20) 8

/-! ## Reception -/

def ipReceive (ethHeader : Ptr) : M Unit := do
  let header := ethHeader + 14
  let valid ← ipHeaderCheck header
  if valid then
    ipHeaderNtoh header
    let protocol ← loadU8 (header + 9)
    if protocol = PROTOCOL_TCP then
      let _ ← tcpReceive header
      pure ()
    else if protocol = PROTOCOL_UDP then udpReceive header
    else if protocol = PROTOCOL_ICMP then icmpReceive header
    else touch (header + 9) 1
  else
    touch (header + 10) 2
    touch header sizeofIpHeader

end TcpIp
