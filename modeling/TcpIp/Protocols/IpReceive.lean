import TcpIp.Protocols.ArpReceive
import TcpIp.Protocols.Ip

/-!
# What the IPv4 and ICMP handlers do

* `sealHeader`: a header with its checksum filled in; `sealHeader_checksum`: it verifies.
* `ipSendPacket_hit`, `ipSendPacket_miss`: the packet goes to the cached address, or the process
  exits after a request for the address.
* `echoReply`: the reply to an echo request, as a function of the packet's bytes.
* `ipReceive_silent`, `ipReceive_hit`, `ipReceive_miss`: a packet that is not a valid echo request
  has no effect; an echo request is answered, or stops the process.
-/

namespace TcpIp

open Bytes Prog World

/-! ## Packets as bytes -/

/-- A header from its first 10 bytes and its addresses, with the checksum of both. -/
def sealHeader (pre addrs : List UInt8) : List UInt8 :=
  pre ++ (bytes16 (internetChecksum (pre ++ ([0, 0] ++ addrs))) ++ addrs)

theorem length_sealHeader (pre addrs : List UInt8) :
    (sealHeader pre addrs).length = pre.length + 2 + addrs.length := by
  simp [sealHeader]; omega

theorem sealHeader_checksum {pre addrs : List UInt8} (hpre : pre.length = 10)
    (haddrs : addrs.length = 8) : internetChecksum (sealHeader pre addrs) = 0 :=
  internetChecksum_patch (by rw [hpre]) (by omega)

/-- The source address of a packet, as the raw word. -/
def packetSrc (packet : List UInt8) : UInt32 :=
  le32 (packet.getD 12 0) (packet.getD 13 0) (packet.getD 14 0) (packet.getD 15 0)

/-- A valid header of protocol ICMP, over a valid ICMP message of type 8. -/
structure IsEchoRequest (packet : List UInt8) : Prop where
  header : internetChecksum (packet.take 20) = 0
  protocol : packet.getD 9 0 = PROTOCOL_ICMP
  icmp : internetChecksum (packet.drop 20) = 0
  type : packet.getD 20 0 = ICMP_ECHO_REQUEST

/-- The reply to an ICMP message: type 0, and the checksum of the message with a zero checksum
field. -/
def icmpReply (icmp : List UInt8) : List UInt8 :=
  let zeroed := overlay (overlay icmp 0 [ICMP_ECHO_REPLY]) 2 (bytes16 0)
  overlay zeroed 2 (bytes16 (internetChecksum zeroed))

/-- The packet that answers an echo request: the addresses are ours and the sender's. -/
def echoReply (ip : UInt32) (packet : List UInt8) : List UInt8 :=
  sealHeader (packet.take 10) (bytes32 ip ++ (packet.drop 12).take 4) ++
    icmpReply (packet.drop 20)

/-- The total length field in memory, in network order. -/
def World.totalLength (w : World) (q : Ptr) : Nat := (ntohs (w.u16 (q + 2))).toNat

/-- The packet at `q`, as long as its total length says. -/
def World.packet (w : World) (q : Ptr) : List UInt8 := w.bytes q (w.totalLength q)

section Packet

variable {w : World} {q : Ptr}

theorem packet_take {k : Nat} (h : k ≤ w.totalLength q) : (w.packet q).take k = w.bytes q k :=
  take_readN _ _ h

theorem packet_drop {k : Nat} (h : k ≤ w.totalLength q) :
    (w.packet q).drop k = w.bytes (q + k) (w.totalLength q - k) :=
  drop_readN _ _ h

theorem packet_getD {i : Nat} (h : i < w.totalLength q) : (w.packet q).getD i 0 = w.u8 (q + i) :=
  getD_bytes h

theorem packetSrc_packet (h : 20 ≤ w.totalLength q) : packetSrc (w.packet q) = w.u32 (q + 12) := by
  have hget : ∀ i, i < 20 → (w.packet q).getD i 0 = w.u8 (q + i) := fun i hi =>
    packet_getD (by omega)
  unfold packetSrc
  rw [hget 12 (by decide), hget 13 (by decide), hget 14 (by decide), hget 15 (by decide)]
  rfl

end Packet

/-- The payload length of a packet that is at least as long as its header. -/
theorem payloadLength32_eq {len : UInt16} (h : 20 ≤ len.toNat) :
    payloadLength32 len = len.toNat - 20 := by
  have := len.toNat_lt
  simp only [payloadLength32, ipHeaderGetPayloadLength, sizeofIpHeader]
  omega

/-! ## Headers in memory -/

/-- The world after `ip_header_ntoh` or `ip_header_hton`, which do the same swaps. -/
def World.ipNtoh (w : World) (q : Ptr) : World :=
  let w := ((w.touch (q + 12) 4).touch (q + 12) 4).write (q + 12) (bytes32 (ntohl (w.u32 (q + 12))))
  let w := ((w.touch (q + 16) 4).touch (q + 16) 4).write (q + 16) (bytes32 (ntohl (w.u32 (q + 16))))
  ((w.touch (q + 2) 2).touch (q + 2) 2).write (q + 2) (bytes16 (ntohs (w.u16 (q + 2))))

theorem ipHeaderNtoh_apply (q : Ptr) (w : World) : ipHeaderNtoh q w = (.ok (), w.ipNtoh q) := rfl

theorem ipHeaderHton_apply (q : Ptr) (w : World) : ipHeaderHton q w = (.ok (), w.ipNtoh q) := rfl

section IpNtoh

variable (w : World) (q : Ptr)

@[simp] theorem ipNtoh_src : (w.ipNtoh q).u32 (q + 12) = ntohl (w.u32 (q + 12)) := by
  simp [ipNtoh]

@[simp] theorem ipNtoh_dst : (w.ipNtoh q).u32 (q + 16) = ntohl (w.u32 (q + 16)) := by
  simp [ipNtoh]

@[simp] theorem ipNtoh_len : (w.ipNtoh q).u16 (q + 2) = ntohs (w.u16 (q + 2)) := by
  simp [ipNtoh]

/-- The bytes outside the three fields. -/
theorem ipNtoh_bytes {i n : Nat} (h1 : i + n ≤ 2 ∨ 4 ≤ i) (h2 : i + n ≤ 12 ∨ 20 ≤ i) :
    (w.ipNtoh q).bytes (q + i) n = w.bytes (q + i) n := by
  have ha : (q + i).Apart n (q + 2) 2 := by simp; omega
  have hb : (q + i).Apart n (q + 12) 4 := by simp; omega
  have hc : (q + i).Apart n (q + 16) 4 := by simp; omega
  simp [ipNtoh, ha, hb, hc]

theorem ipNtoh_u8 {i : Nat} (h1 : i < 2 ∨ 4 ≤ i) (h2 : i < 12 ∨ 20 ≤ i) :
    (w.ipNtoh q).u8 (q + i) = w.u8 (q + i) := by
  have h := ipNtoh_bytes w q (i := i) (n := 1) (by omega) (by omega)
  simpa [bytes_one] using h

end IpNtoh

/-- The world after `ip_header_hton` and `ip_header_update_checksum`. -/
def World.ipSealed (w : World) (q : Ptr) : World :=
  let w := ((w.ipNtoh q).touch (q + 10) 2).write (q + 10) (bytes16 0)
  ((w.touch q 20).touch (q + 10) 2).write (q + 10) (bytes16 (internetChecksum (w.bytes q 20)))

theorem ipHeaderUpdateChecksum_apply (w : World) (q : Ptr) :
    ipHeaderUpdateChecksum q (w.ipNtoh q) = (.ok (), w.ipSealed q) := rfl

/-- The 20 bytes of a header, field by field. -/
theorem World.bytes_ipHeader (w : World) (q : Ptr) :
    w.bytes q 20 = (w.bytes q 2 ++ bytes16 (w.u16 (q + 2)) ++ w.bytes (q + 4) 6) ++
      (bytes16 (w.u16 (q + 10)) ++ (bytes32 (w.u32 (q + 12)) ++ bytes32 (w.u32 (q + 16)))) := by
  simp only [← bytes_two, ← bytes_four]
  show w.bytes q (2 + 2 + 6 + 2 + 4 + 4) = _
  simp only [bytes_add, List.append_assoc]

section IpSealed

variable (w : World) (q : Ptr)

theorem ipSealed_statics : w.SameStatics (w.ipSealed q) := ⟨rfl, rfl, rfl⟩

/-- The header that is sent. -/
theorem ipSealed_header : (w.ipSealed q).bytes q 20 =
    sealHeader (w.bytes q 2 ++ bytes16 (ntohs (w.u16 (q + 2))) ++ w.bytes (q + 4) 6)
      (bytes32 (ntohl (w.u32 (q + 12))) ++ bytes32 (ntohl (w.u32 (q + 16)))) := by
  have h0 : (w.ipNtoh q).bytes q 2 = w.bytes q 2 := ipNtoh_bytes w q (i := 0) (by omega) (by omega)
  have h4 := ipNtoh_bytes w q (i := 4) (n := 6) (by omega) (by omega)
  unfold ipSealed
  rw [bytes_ipHeader]
  simp only [sealHeader, bytes_ipHeader]
  simp [h0, h4]
  rfl

/-- The payload is not changed. -/
theorem ipSealed_payload (n : Nat) : (w.ipSealed q).bytes (q + 20) n = w.bytes (q + 20) n := by
  simp [ipSealed, ipNtoh_bytes]

end IpSealed

/-! ## Sending a packet -/

section Send

variable {w : World} {q : Ptr}

/-- `ip_send_packet` to a cached address sends as many bytes as the total length says, from the
header on. -/
theorem ipSendPacket_cached (hr : w.net.Ready) (hv : w.cache.Valid) {mac : Mac}
    (hlook : w.cache.lookup (htonl (w.u32 (q + 16))) = some mac) :
    ∃ w₁ w' : World, w₁.mem = w.mem ∧ ipSendPacket q w = (.ok (), w') ∧ w'.cache = w.cache ∧
      w.Serves w' [ethFrame mac w.net.mac ETH_P_IP
        ((w₁.ipSealed q).bytes q (w.u16 (q + 2)).toNat)] := by
  generalize hw₁ : (w.touch (q + 16) 4).touch (q + 2) 2 = w₁
  have hmem : w₁.mem = w.mem := by subst hw₁; rfl
  have hs₁ : w.SameStatics w₁ := by subst hw₁; exact ⟨rfl, rfl, rfl⟩
  have hs₂ := hs₁.trans (ipSealed_statics w₁ q)
  obtain ⟨cell, hres, hderef⟩ := arpResolveIpv4_hit (w := w₁) (by rwa [hs₁.cache])
    (by rw [hs₁.cache]; exact hlook)
  have hlt := (w.u16 (q + 2)).toNat_lt
  obtain ⟨w', hsend, hserves, hcache, -⟩ := netInterfaceSend_spec (w := w₁.ipSealed q)
    (by rwa [hs₂.net]) q (show (w.u16 (q + 2)).toNat + 14 < 2 ^ 32 by omega) mac ETH_P_IP
  refine ⟨w₁, w', hmem, ?_, hcache.trans hs₂.cache, ?_⟩
  · unfold ipSendPacket
    rw [loadU32_bind, loadU16_bind, touch_u16, hw₁, bind_ok hres]
    dsimp only
    rw [bind_ok (ipHeaderHton_apply q w₁), bind_ok (ipHeaderUpdateChecksum_apply w₁ q),
      bind_ok (hderef (w₁.ipSealed q) (ipSealed_statics w₁ q).cache), hsend]
  · rw [hs₂.net] at hserves
    exact hserves.start hs₂.net hs₂.wire

/-- **`ip_send_packet`** of a packet in host order to a cached address. -/
theorem ipSendPacket_hit (hr : w.net.Ready) (hv : w.cache.Valid) {mac : Mac}
    (hlook : w.cache.lookup (htonl (w.u32 (q + 16))) = some mac)
    (hlen : 20 ≤ (w.u16 (q + 2)).toNat) :
    ∃ w', ipSendPacket q w = (.ok (), w') ∧ w'.cache = w.cache ∧
      w.Serves w' [ethFrame mac w.net.mac ETH_P_IP
        (sealHeader (w.bytes q 2 ++ bytes16 (htons (w.u16 (q + 2))) ++ w.bytes (q + 4) 6)
            (bytes32 (htonl (w.u32 (q + 12))) ++ bytes32 (htonl (w.u32 (q + 16)))) ++
          w.bytes (q + 20) ((w.u16 (q + 2)).toNat - 20))] := by
  obtain ⟨w₁, w', hmem, hrun, hcache, hserves⟩ := ipSendPacket_cached hr hv hlook
  obtain ⟨k, hk⟩ := Nat.exists_eq_add_of_le hlen
  rw [hk, bytes_add, ipSealed_header, ipSealed_payload] at hserves
  simp only [bytes_congr hmem, u16_congr hmem, u32_congr hmem] at hserves
  rw [hk, Nat.add_sub_cancel_left]
  exact ⟨w', hrun, hcache, hserves⟩

/-- A total length below 20 cuts the header. -/
theorem ipSendPacket_short (hr : w.net.Ready) (hv : w.cache.Valid) {mac : Mac}
    (hlook : w.cache.lookup (htonl (w.u32 (q + 16))) = some mac)
    (hlen : (w.u16 (q + 2)).toNat ≤ 20) :
    ∃ w', ipSendPacket q w = (.ok (), w') ∧ w'.cache = w.cache ∧
      w.Serves w' [ethFrame mac w.net.mac ETH_P_IP
        ((sealHeader (w.bytes q 2 ++ bytes16 (htons (w.u16 (q + 2))) ++ w.bytes (q + 4) 6)
            (bytes32 (htonl (w.u32 (q + 12))) ++ bytes32 (htonl (w.u32 (q + 16))))).take
          (w.u16 (q + 2)).toNat)] := by
  obtain ⟨w₁, w', hmem, hrun, hcache, hserves⟩ := ipSendPacket_cached hr hv hlook
  have hcut : (w₁.ipSealed q).bytes q (w.u16 (q + 2)).toNat =
      ((w₁.ipSealed q).bytes q 20).take (w.u16 (q + 2)).toNat := (take_readN _ _ hlen).symm
  rw [hcut, ipSealed_header] at hserves
  simp only [bytes_congr hmem, u16_congr hmem, u32_congr hmem] at hserves
  exact ⟨w', hrun, hcache, hserves⟩

/-- **`ip_send_packet`** to an address that is not cached: a request, then the end of the
process. -/
theorem ipSendPacket_miss (hr : w.net.Ready) (hv : w.cache.Valid)
    (hlook : w.cache.lookup (htonl (w.u32 (q + 16))) = none) :
    ∃ w', ipSendPacket q w = (.error (.exit 1), w') ∧ w'.cache = w.cache ∧
      w.Serves w' [w.net.host.request (htonl (w.u32 (q + 16)))] := by
  obtain ⟨w', hres, hcache, hserves⟩ := arpResolveIpv4_miss
    (w := (w.touch (q + 16) 4).touch (q + 2) 2) hr hv hlook
  refine ⟨w'.touch (q + 16) 4, ?_, hcache, ?_⟩
  · unfold ipSendPacket
    rw [loadU32_bind, loadU16_bind, bind_ok hres]
    rfl
  · exact ⟨hserves.ready, hserves.ip, hserves.mac, hserves.wire⟩

end Send

/-! ## Answering an echo request -/

/-- The world in which `receive_echo_request` calls `ip_send_packet`, for a message of `len`
bytes. -/
def World.echoed (w : World) (q : Ptr) (len : Nat) : World :=
  let w := ((w.touch (q + 2) 2).touch (q + 20) 1).write (q + 20) [ICMP_ECHO_REPLY]
  let w := (w.touch (q + 22) 2).write (q + 22) (bytes16 0)
  let w := ((w.touch (q + 20) len).touch (q + 22) 2).write (q + 22)
    (bytes16 (internetChecksum (w.bytes (q + 20) len)))
  let w := ((w.touch (q + 12) 4).touch (q + 16) 4).write (q + 16) (bytes32 (w.u32 (q + 12)))
  (w.touch (q + 12) 4).write (q + 12) (bytes32 (ntohl w.net.ip))

theorem receiveEchoRequest_eq {w : World} {q : Ptr} {len : Nat}
    (h : payloadLength32 (w.u16 (q + 2)) = len) :
    receiveEchoRequest q (q + 20) w = ipSendPacket q (w.echoed q len) := by
  simp only [receiveEchoRequest, loadU16_bind, h, storeU8_bind, storeU16_bind, loadBytes_bind,
    loadU32_bind, storeU32_bind, netInterfaceGetIp_bind, Ptr.add_add, Nat.reduceAdd, echoed]

section Echoed

variable (w : World) (q : Ptr) (len : Nat)

theorem echoed_statics : w.SameStatics (w.echoed q len) := ⟨rfl, rfl, rfl⟩

@[simp] theorem echoed_len : (w.echoed q len).u16 (q + 2) = w.u16 (q + 2) := by simp [echoed]

@[simp] theorem echoed_src : (w.echoed q len).u32 (q + 12) = ntohl w.net.ip := by simp [echoed]

@[simp] theorem echoed_dst : (w.echoed q len).u32 (q + 16) = w.u32 (q + 12) := by simp [echoed]

theorem echoed_start : (w.echoed q len).bytes q 2 = w.bytes q 2 := by simp [echoed]

theorem echoed_middle : (w.echoed q len).bytes (q + 4) 6 = w.bytes (q + 4) 6 := by simp [echoed]

theorem echoed_icmp : (w.echoed q len).bytes (q + 20) len = icmpReply (w.bytes (q + 20) len) := by
  have h22 : ∀ (w : World) l, (w.write (q + 22) l).bytes (q + 20) len =
      overlay (w.bytes (q + 20) len) 2 l := fun w l => by
    rw [← write_bytes_overlay, Ptr.add_add]
  have h20 : ∀ (w : World) l, (w.write (q + 20) l).bytes (q + 20) len =
      overlay (w.bytes (q + 20) len) 0 l := fun w l => by
    rw [← write_bytes_overlay, Ptr.add_add]
  simp [echoed, h22, h20, icmpReply]

end Echoed

/-! ## Reception -/

section Receive

variable {w : World} {q : Ptr} {len : Nat}

/-- `icmp_receive` of a message that is not a valid echo request. -/
theorem icmpReceive_silent (hlen : payloadLength32 (w.u16 (q + 2)) = len)
    (h : internetChecksum (w.bytes (q + 20) len) = 0 → w.u8 (q + 20) ≠ ICMP_ECHO_REQUEST) :
    ∃ w', icmpReceive q w = (.ok (), w') ∧ w.SameStatics w' := by
  simp only [icmpReceive, icmpCheck, bind_assoc, loadU16_bind, hlen, loadBytes_bind, pure_bind,
    touch_bytes]
  by_cases hc : internetChecksum (w.bytes (q + 20) len) = 0
  · rw [if_pos (beq_iff_eq.mpr hc), loadU8_bind, touch_u8, touch_u8, if_neg (h hc)]
    exact ⟨_, rfl, rfl, rfl, rfl⟩
  · rw [if_neg (fun hb => hc (beq_iff_eq.mp hb))]
    exact ⟨_, rfl, rfl, rfl, rfl⟩

/-- `icmp_receive` of a valid echo request. -/
theorem icmpReceive_request (hlen : payloadLength32 (w.u16 (q + 2)) = len)
    (hc : internetChecksum (w.bytes (q + 20) len) = 0)
    (ht : w.u8 (q + 20) = ICMP_ECHO_REQUEST) :
    ∃ w₁, w₁.mem = w.mem ∧ w.SameStatics w₁ ∧
      icmpReceive q w = ipSendPacket q (w₁.echoed q len) := by
  refine ⟨((w.touch (q + 2) 2).touch (q + 20) len).touch (q + 20) 1, rfl, ⟨rfl, rfl, rfl⟩, ?_⟩
  refine Eq.trans ?_ (receiveEchoRequest_eq hlen)
  simp only [icmpReceive, icmpCheck, bind_assoc, loadU16_bind, hlen, loadBytes_bind, pure_bind,
    touch_bytes]
  rw [if_pos (beq_iff_eq.mpr hc), loadU8_bind, touch_u8, touch_u8, if_pos ht]

end Receive

/-- `tcp_receive` works on memory only. -/
theorem tcpReceive_silent (q : Ptr) : Silent (tcpReceive q) := by
  have hswap : ∀ p, Silent (swapField16 p) := fun p =>
    (Silent.loadU16 p).bind fun _ => Silent.storeBytes p _
  have hswap' : ∀ p, Silent (swapField32As16 p) := fun p =>
    (Silent.loadU32 p).bind fun _ => Silent.storeBytes p _
  have hcheck : ∀ h, Silent (tcpHeaderCheck q h) := fun h =>
    (Silent.loadU16 _).bind fun _ => (Silent.loadBytes _ _).bind fun _ =>
      (Silent.loadU32 _).bind fun _ => (Silent.loadU32 _).bind fun _ =>
        (Silent.storeBytes _ _).bind fun _ => (Silent.loadBytes _ _).bind fun _ => Silent.pure _
  refine (hcheck _).bind fun valid => Returns.ite ?_ ?_
  · exact ((hswap' _).bind fun _ => (hswap' _).bind fun _ => (hswap _).bind fun _ => hswap _).bind
      fun _ => (Silent.touch _ _).bind fun _ => (Silent.loadU16 _).bind fun _ => Silent.pure _
  · exact (Silent.touch _ _).bind fun _ => Silent.pure _

section IpReceive

variable {w : World} {p : Ptr}

/-- The world in which the handler of a protocol runs. -/
def World.ipHanded (w : World) (q : Ptr) : World :=
  ((w.touch q 20).ipNtoh q).touch (q + 9) 1

/-- `ip_receive` of a packet with a bad header checksum. -/
theorem ipReceive_bad (h : internetChecksum (w.bytes (p + 14) 20) ≠ 0) :
    ∃ w', ipReceive p w = (.ok (), w') ∧ w.SameStatics w' := by
  simp only [ipReceive, ipHeaderCheck, bind_assoc, loadBytes_bind, pure_bind, sizeofIpHeader]
  rw [if_neg (fun hb => h (beq_iff_eq.mp hb)), touch_bind]
  exact ⟨_, rfl, rfl, rfl, rfl⟩

/-- `ip_receive` of a packet with a good header: the protocol selects the handler, which finds the
header in host order. -/
theorem ipReceive_good (h : internetChecksum (w.bytes (p + 14) 20) = 0) :
    ipReceive p w = (if w.u8 (p + 14 + 9) = PROTOCOL_TCP then
        (tcpReceive (p + 14) >>= fun _ => pure () : M Unit)
      else if w.u8 (p + 14 + 9) = PROTOCOL_UDP then udpReceive (p + 14)
      else if w.u8 (p + 14 + 9) = PROTOCOL_ICMP then icmpReceive (p + 14)
      else touch (p + 14 + 9) 1) (w.ipHanded (p + 14)) := by
  have h9 : ((w.touch (p + 14) 20).ipNtoh (p + 14)).u8 (p + 14 + 9) = w.u8 (p + 14 + 9) :=
    ipNtoh_u8 _ _ (by omega) (by omega)
  simp only [ipReceive, ipHeaderCheck, bind_assoc, loadBytes_bind, pure_bind, sizeofIpHeader]
  rw [if_pos (beq_iff_eq.mpr h), bind_ok (ipHeaderNtoh_apply _ _), loadU8_bind, h9, ipHanded]

/-- What the handlers test before they answer a packet at `q`, for any total length. -/
structure World.EchoTest (w : World) (q : Ptr) : Prop where
  header : internetChecksum (w.bytes q 20) = 0
  protocol : w.u8 (q + 9) = PROTOCOL_ICMP
  icmp : internetChecksum (w.bytes (q + 20) (payloadLength32 (ntohs (w.u16 (q + 2))))) = 0
  type : w.u8 (q + 20) = ICMP_ECHO_REQUEST

/-- For a total length of at least 20 the test is about the packet. -/
theorem echoTest_iff {q : Ptr} (hL : 20 ≤ w.totalLength q) :
    w.EchoTest q ↔ IsEchoRequest (w.packet q) := by
  have hlen : payloadLength32 (ntohs (w.u16 (q + 2))) = w.totalLength q - 20 := payloadLength32_eq hL
  have hp : (w.packet q).getD 9 0 = w.u8 (q + 9) := packet_getD (by omega)
  rcases Nat.eq_or_lt_of_le hL with hL' | hL'
  · -- The empty message does not verify.
    have hempty : internetChecksum (w.bytes (q + 20) (w.totalLength q - 20)) ≠ 0 := by
      rw [← hL', Nat.sub_self, World.bytes, readN_zero, ne_eq, internetChecksum_eq_zero (by simp)]
      simp [OnesComplement.wordSum]
    constructor
    · rintro ⟨-, -, hicmp, -⟩
      rw [hlen] at hicmp
      exact absurd hicmp hempty
    · rintro ⟨-, -, hicmp, -⟩
      rw [packet_drop hL] at hicmp
      exact absurd hicmp hempty
  · have ht : (w.packet q).getD 20 0 = w.u8 (q + 20) := packet_getD hL'
    constructor
    · rintro ⟨h1, h2, h3, h4⟩
      rw [hlen] at h3
      exact ⟨by rwa [packet_take hL], hp.trans h2, by rwa [packet_drop hL], ht.trans h4⟩
    · rintro ⟨h1, h2, h3, h4⟩
      rw [packet_take hL] at h1
      rw [packet_drop hL, ← hlen] at h3
      exact ⟨h1, hp.symm.trans h2, h3, ht.symm.trans h4⟩

theorem ipHanded_statics (w : World) (q : Ptr) : w.SameStatics (w.ipHanded q) := ⟨rfl, rfl, rfl⟩

theorem ipHanded_len (w : World) (q : Ptr) :
    (w.ipHanded q).u16 (q + 2) = ntohs (w.u16 (q + 2)) := by
  unfold ipHanded
  rw [touch_u16, ipNtoh_len, touch_u16]

theorem ipHanded_payload (w : World) (q : Ptr) (n : Nat) :
    (w.ipHanded q).bytes (q + 20) n = w.bytes (q + 20) n :=
  ipNtoh_bytes _ _ (by omega) (by omega)

theorem ipHanded_type (w : World) (q : Ptr) : (w.ipHanded q).u8 (q + 20) = w.u8 (q + 20) :=
  ipNtoh_u8 _ _ (by omega) (by omega)

/-- `ip_receive` of a packet that does not pass the test has no effect. -/
theorem ipReceive_ignored (h : ¬ w.EchoTest (p + 14)) :
    ∃ w', ipReceive p w = (.ok (), w') ∧ w.SameStatics w' := by
  by_cases hheader : internetChecksum (w.bytes (p + 14) 20) = 0
  · rw [ipReceive_good hheader]
    have hs := ipHanded_statics w (p + 14)
    split
    · obtain ⟨b, w', hrun, hs'⟩ := tcpReceive_silent (p + 14) (w.ipHanded (p + 14))
      exact ⟨w', bind_ok hrun, hs.trans hs'⟩
    · split
      · exact ⟨_, rfl, hs.trans ⟨rfl, rfl, rfl⟩⟩
      · split
        · rename_i hprotocol
          obtain ⟨w', hrun, hs'⟩ := icmpReceive_silent (w := w.ipHanded (p + 14)) rfl (by
            rw [ipHanded_payload, ipHanded_type, ipHanded_len]
            intro hicmp htype
            exact h ⟨hheader, hprotocol, hicmp, htype⟩)
          exact ⟨w', hrun, hs.trans hs'⟩
        · exact ⟨_, rfl, hs.trans ⟨rfl, rfl, rfl⟩⟩
  · exact ipReceive_bad hheader

/-- `ip_receive` of a packet that passes the test sends the packet that `receive_echo_request` makes
of it. -/
theorem ipReceive_echo (h : w.EchoTest (p + 14)) {len : Nat}
    (hlen : payloadLength32 (ntohs (w.u16 (p + 14 + 2))) = len) :
    ∃ w₁, w₁.mem = (w.ipHanded (p + 14)).mem ∧ w.SameStatics w₁ ∧
      ipReceive p w = ipSendPacket (p + 14) (w₁.echoed (p + 14) len) := by
  obtain ⟨hheader, hprotocol, hicmp, htype⟩ := h
  rw [hlen] at hicmp
  have hlen' : payloadLength32 ((w.ipHanded (p + 14)).u16 (p + 14 + 2)) = len :=
    (congrArg payloadLength32 (ipHanded_len w (p + 14))).trans hlen
  have hicmp' : internetChecksum ((w.ipHanded (p + 14)).bytes (p + 14 + 20) len) = 0 :=
    (congrArg internetChecksum (ipHanded_payload w (p + 14) len)).trans hicmp
  obtain ⟨w₁, hmem, hs, hrun⟩ := icmpReceive_request hlen' hicmp'
    ((ipHanded_type w (p + 14)).trans htype)
  refine ⟨w₁, hmem, (ipHanded_statics w (p + 14)).trans hs, ?_⟩
  rw [ipReceive_good hheader, if_neg (by rw [hprotocol]; decide),
    if_neg (by rw [hprotocol]; decide), if_pos hprotocol, hrun]

/-- **`ip_receive`** of anything but a valid echo request has no effect. -/
theorem ipReceive_silent (hL : 20 ≤ w.totalLength (p + 14))
    (h : ¬ IsEchoRequest (w.packet (p + 14))) :
    ∃ w', ipReceive p w = (.ok (), w') ∧ w.SameStatics w' :=
  ipReceive_ignored fun htest => h ((echoTest_iff hL).mp htest)

/-- The header of the answer to the packet at `q`, in the fields of the world it is sent from. -/
theorem echoed_header {q : Ptr} {w₁ : World} (hmem : w₁.mem = (w.ipHanded q).mem)
    (hip : w₁.net.ip = w.net.ip) (len : Nat) :
    let sent := w₁.echoed q len
    sealHeader (sent.bytes q 2 ++ bytes16 (htons (sent.u16 (q + 2))) ++ sent.bytes (q + 4) 6)
        (bytes32 (htonl (sent.u32 (q + 12))) ++ bytes32 (htonl (sent.u32 (q + 16)))) =
      sealHeader (w.bytes q 10) (bytes32 w.net.ip ++ w.bytes (q + 12) 4) := by
  have h0 : (w.ipHanded q).bytes q 2 = w.bytes q 2 := ipNtoh_bytes _ q (i := 0) (by omega) (by omega)
  have h4 : (w.ipHanded q).bytes (q + 4) 6 = w.bytes (q + 4) 6 :=
    ipNtoh_bytes _ q (by omega) (by omega)
  have h12 : (w.ipHanded q).u32 (q + 12) = ntohl (w.u32 (q + 12)) := ipNtoh_src _ _
  have hpre : w.bytes q 2 ++ bytes16 (w.u16 (q + 2)) ++ w.bytes (q + 4) 6 = w.bytes q 10 := by
    rw [← bytes_two]
    show _ = w.bytes q (2 + 2 + 6)
    simp only [bytes_add]
  simp only [echoed_start, echoed_middle, echoed_len, echoed_src, echoed_dst, bytes_congr hmem,
    u16_congr hmem, u32_congr hmem, h0, ipHanded_len, h4, h12, hip, htons_ntohs, htonl_ntohl, hpre,
    bytes_four]

/-- The packet that answers the request at `q`. -/
theorem echoReply_eq {q : Ptr} {w₁ : World} (hL : 20 ≤ w.totalLength q)
    (hmem : w₁.mem = (w.ipHanded q).mem) (hip : w₁.net.ip = w.net.ip) :
    let sent := w₁.echoed q (w.totalLength q - 20)
    sealHeader (sent.bytes q 2 ++ bytes16 (htons (sent.u16 (q + 2))) ++ sent.bytes (q + 4) 6)
        (bytes32 (htonl (sent.u32 (q + 12))) ++ bytes32 (htonl (sent.u32 (q + 16)))) ++
      sent.bytes (q + 20) (w.totalLength q - 20) = echoReply w.net.ip (w.packet q) := by
  have hsrc : w.bytes (q + 12) 4 = ((w.packet q).drop 12).take 4 := by
    rw [packet_drop (by omega)]
    exact (take_readN _ _ (by omega)).symm
  dsimp only
  rw [echoed_header hmem hip, echoed_icmp, bytes_congr hmem, ipHanded_payload, echoReply,
    packet_take (by omega), packet_drop hL, hsrc]

/-- **`ip_receive`** of an echo request from a cached address answers it. -/
theorem ipReceive_hit (hr : w.net.Ready) (hv : w.cache.Valid)
    (hL : 20 ≤ w.totalLength (p + 14)) (h : IsEchoRequest (w.packet (p + 14))) {mac : Mac}
    (hlook : w.cache.lookup (packetSrc (w.packet (p + 14))) = some mac) :
    ∃ w', ipReceive p w = (.ok (), w') ∧ w'.cache = w.cache ∧
      w.Serves w' [ethFrame mac w.net.mac ETH_P_IP (echoReply w.net.ip (w.packet (p + 14)))] := by
  obtain ⟨w₁, hmem, hs₁, hrun⟩ := ipReceive_echo ((echoTest_iff hL).mpr h) (payloadLength32_eq hL)
  have hs := hs₁.trans (echoed_statics w₁ (p + 14) (w.totalLength (p + 14) - 20))
  have hsrc : w₁.u32 (p + 14 + 12) = ntohl (w.u32 (p + 14 + 12)) :=
    (u32_congr hmem).trans (ipNtoh_src _ _)
  have hlen : w₁.u16 (p + 14 + 2) = ntohs (w.u16 (p + 14 + 2)) :=
    (u16_congr hmem).trans (ipNtoh_len _ _)
  obtain ⟨w', hsend, hcache, hserves⟩ := ipSendPacket_hit
    (w := w₁.echoed (p + 14) (w.totalLength (p + 14) - 20)) (q := p + 14)
    (by rwa [hs.net]) (by rwa [hs.cache])
    (by rwa [echoed_dst, hsrc, htonl_ntohl, ← packetSrc_packet hL, hs.cache])
    (by rw [echoed_len, hlen]; exact hL)
  have hreply := echoReply_eq hL hmem (by rw [hs₁.net])
  have htotal : ((w₁.echoed (p + 14) (w.totalLength (p + 14) - 20)).u16 (p + 14 + 2)).toNat =
      w.totalLength (p + 14) := by
    rw [echoed_len, hlen]
    rfl
  rw [htotal, hreply, hs.net] at hserves
  exact ⟨w', hrun.trans hsend, hcache.trans hs.cache, hserves.start hs.net hs.wire⟩

/-- `ip_receive` of a packet that passes the test and is shorter than a header. -/
theorem ipReceive_short (hr : w.net.Ready) (hv : w.cache.Valid)
    (hL : w.totalLength (p + 14) ≤ 20) (h : w.EchoTest (p + 14)) {mac : Mac}
    (hlook : w.cache.lookup (w.u32 (p + 14 + 12)) = some mac) :
    ∃ w', ipReceive p w = (.ok (), w') ∧ w'.cache = w.cache ∧
      w.Serves w' [ethFrame mac w.net.mac ETH_P_IP
        ((sealHeader (w.bytes (p + 14) 10) (bytes32 w.net.ip ++ w.bytes (p + 14 + 12) 4)).take
          (w.totalLength (p + 14)))] := by
  generalize hlen : payloadLength32 (ntohs (w.u16 (p + 14 + 2))) = len
  obtain ⟨w₁, hmem, hs₁, hrun⟩ := ipReceive_echo h hlen
  clear hlen
  have hs := hs₁.trans (echoed_statics w₁ (p + 14) len)
  have hsrc : w₁.u32 (p + 14 + 12) = ntohl (w.u32 (p + 14 + 12)) :=
    (u32_congr hmem).trans (ipNtoh_src _ _)
  have htotal : ((w₁.echoed (p + 14) len).u16 (p + 14 + 2)).toNat = w.totalLength (p + 14) := by
    rw [echoed_len, u16_congr hmem, ipHanded_len]
    rfl
  obtain ⟨w', hsend, hcache, hserves⟩ := ipSendPacket_short (w := w₁.echoed (p + 14) len)
    (q := p + 14) (by rwa [hs.net]) (by rwa [hs.cache])
    (by rwa [echoed_dst, hsrc, htonl_ntohl, hs.cache]) (by rwa [htotal])
  rw [htotal, echoed_header hmem (by rw [hs₁.net]), hs.net] at hserves
  exact ⟨w', hrun.trans hsend, hcache.trans hs.cache, hserves.start hs.net hs.wire⟩

/-- `ip_receive` of a packet that passes the test, from an address that is not cached. -/
theorem ipReceive_unknown (hr : w.net.Ready) (hv : w.cache.Valid) (h : w.EchoTest (p + 14))
    (hlook : w.cache.lookup (w.u32 (p + 14 + 12)) = none) :
    ∃ w', ipReceive p w = (.error (.exit 1), w') ∧ w'.cache = w.cache ∧
      w.Serves w' [w.net.host.request (w.u32 (p + 14 + 12))] := by
  generalize hlen : payloadLength32 (ntohs (w.u16 (p + 14 + 2))) = len
  obtain ⟨w₁, hmem, hs₁, hrun⟩ := ipReceive_echo h hlen
  clear hlen
  have hs := hs₁.trans (echoed_statics w₁ (p + 14) len)
  have hdst : htonl ((w₁.echoed (p + 14) len).u32 (p + 14 + 16)) = w.u32 (p + 14 + 12) := by
    have hsrc : w₁.u32 (p + 14 + 12) = ntohl (w.u32 (p + 14 + 12)) :=
      (u32_congr hmem).trans (ipNtoh_src _ _)
    rw [echoed_dst, hsrc, htonl_ntohl]
  obtain ⟨w', hsend, hcache, hserves⟩ := ipSendPacket_miss (q := p + 14)
    (w := w₁.echoed (p + 14) len) (by rwa [hs.net]) (by rwa [hs.cache]) (by rwa [hdst, hs.cache])
  rw [hdst, hs.net] at hserves
  exact ⟨w', hrun.trans hsend, hcache.trans hs.cache, hserves.start hs.net hs.wire⟩

/-- **`ip_receive`** of an echo request from an address that is not cached sends a request for the
address and ends the process. -/
theorem ipReceive_miss (hr : w.net.Ready) (hv : w.cache.Valid)
    (hL : 20 ≤ w.totalLength (p + 14)) (h : IsEchoRequest (w.packet (p + 14)))
    (hlook : w.cache.lookup (packetSrc (w.packet (p + 14))) = none) :
    ∃ w', ipReceive p w = (.error (.exit 1), w') ∧ w'.cache = w.cache ∧
      w.Serves w' [w.net.host.request (packetSrc (w.packet (p + 14)))] := by
  rw [packetSrc_packet hL] at hlook ⊢
  exact ipReceive_unknown hr hv ((echoTest_iff hL).mpr h) hlook

end IpReceive

end TcpIp
