import TcpIp.Run

/-!
# IPv4 send and receive are inverse

`ipSend_packet`: the packet that `ip_send` hands to `ip_send_packet`. `ipSend_spec`: the one frame
that it emits. The second half reads such a frame back in the receive buffer of another instance
(`ReadsBack`): the accessors of the header fields are found from the 20 bytes they are in.
-/

namespace TcpIp

open Bytes Prog World

/-! ## Sending -/

/-- The first 10 bytes of the header of a packet with `len` payload bytes. -/
def headerStart (len : Nat) (protocol : UInt32) : List UInt8 :=
  [0x45, 0] ++ bytes16 (htons (UInt16.ofNat (20 + len))) ++
    (bytes16 7 ++ bytes16 0 ++ [64, protocol.toUInt8])

/-- The packet that `ip_send` makes. -/
def sentPacket (ip dst : UInt32) (payload : List UInt8) (protocol : UInt32) : List UInt8 :=
  sealHeader (headerStart payload.length protocol) (bytes32 ip ++ bytes32 (htonl dst)) ++ payload

theorem length_headerStart (len : Nat) (protocol : UInt32) :
    (headerStart len protocol).length = 10 := by
  simp [headerStart]

theorem length_sentPacket (ip dst : UInt32) (payload : List UInt8) (protocol : UInt32) :
    (sentPacket ip dst payload protocol).length = 20 + payload.length := by
  simp [sentPacket, length_sealHeader, length_headerStart]

/-- `W` is `w` with the complete packet at `q`, in host order: its total length is computed with 16
bits, twice. -/
structure World.HoldsPacket (w W : World) (q : Ptr) (dst : UInt32) (payload : List UInt8)
    (protocol : UInt32) : Prop where
  statics : w.SameStatics W
  start : W.bytes q 2 = [0x45, 0]
  len : W.u16 (q + 2) = UInt16.ofNat (20 + (UInt16.ofNat payload.length).toNat)
  middle : W.bytes (q + 4) 6 = bytes16 7 ++ bytes16 0 ++ [64, protocol.toUInt8]
  src : W.u32 (q + 12) = ntohl w.net.ip
  dst : W.u32 (q + 16) = dst
  payload : W.bytes (q + 20) payload.length = payload

/-- `ip_send` completes the packet before it calls `ip_send_packet`. -/
theorem ipSend_packet (w : World) (dst : UInt32) (payload : List UInt8) (protocol : UInt32) :
    ∃ (q : Ptr) (W : World), w.HoldsPacket W q dst payload protocol ∧
      ipSend dst payload protocol w = ipSendPacket q W := by
  simp only [ipSend, ipHeaderAlloc, bind_assoc, callocObj_bind, storeU8_bind, storeU16_bind,
    storeU32_bind, loadBytes_bind, netInterfaceGetIp_bind, storeBytes_bind]
  rw [sizeofIpHeader]
  generalize htotal : UInt16.ofNat (20 + (UInt16.ofNat payload.length).toNat) = total
  generalize (⟨.packet, 0⟩ : Ptr) = q
  generalize hW : World.write _ (q + 20) payload = W
  refine ⟨q, W, ⟨?_, ?_, ?_, ?_, ?_, ?_, ?_⟩, rfl⟩
  · subst hW
    exact ⟨rfl, rfl, rfl⟩
  · show W.bytes q (1 + 1) = _
    rw [bytes_add, bytes_one, bytes_one]
    subst hW
    simp
    rfl
  · rw [htotal]
    subst hW
    simp
  · show W.bytes (q + 4) (2 + 2 + 1 + 1) = _
    rw [bytes_add, bytes_add, bytes_add, bytes_one, bytes_one, bytes_two, bytes_two]
    subst hW
    simp
  · subst hW
    simp
  · subst hW
    simp
  · subst hW
    exact write_bytes_same rfl

/-- **`ip_send`** to a cached address sends exactly one frame. -/
theorem ipSend_spec {w : World} (hr : w.net.Ready) (hv : w.cache.Valid) {dst : UInt32} {mac : Mac}
    (hlook : w.cache.lookup (htonl dst) = some mac) {payload : List UInt8}
    (hlen : payload.length ≤ 65515) (protocol : UInt32) :
    ∃ w', ipSend dst payload protocol w = (.ok (), w') ∧ w'.cache = w.cache ∧
      w.Serves w' [ethFrame mac w.net.mac ETH_P_IP
        (sentPacket w.net.ip dst payload protocol)] := by
  have htotal : UInt16.ofNat (20 + (UInt16.ofNat payload.length).toNat) =
      UInt16.ofNat (20 + payload.length) := by
    rw [UInt16.toNat_ofNat', Nat.mod_eq_of_lt (by omega)]
  have hreal : (UInt16.ofNat (20 + payload.length)).toNat = 20 + payload.length := by
    rw [UInt16.toNat_ofNat', Nat.mod_eq_of_lt (by omega)]
  obtain ⟨q, W, h, hsend⟩ := ipSend_packet w dst payload protocol
  have hs := h.statics
  obtain ⟨w', hrun, hcache, hserves⟩ := ipSendPacket_hit (w := W) (q := q) (by rwa [hs.net])
    (by rwa [hs.cache]) (by rwa [h.dst, hs.cache]) (by rw [h.len, htotal]; omega)
  rw [h.start, h.len, htotal, h.middle, h.src, h.dst, hreal, Nat.add_sub_cancel_left, h.payload,
    hs.net, htonl_ntohl] at hserves
  exact ⟨w', hsend.trans hrun, hcache.trans hs.cache, hserves.start hs.net hs.wire⟩

/-! ## Reading back -/

/-- The fields of a header, from its 20 bytes. -/
theorem fields_of_header {w : World} {q : Ptr} {a c : List UInt8} {len check : UInt16}
    {src dst : UInt32} (ha : a.length = 2) (hc : c.length = 6)
    (h : w.bytes q 20 = (a ++ bytes16 len ++ c) ++
      (bytes16 check ++ (bytes32 src ++ bytes32 dst))) :
    w.bytes q 2 = a ∧ w.u16 (q + 2) = len ∧ w.bytes (q + 4) 6 = c ∧ w.u32 (q + 12) = src ∧
      w.u32 (q + 16) = dst := by
  rw [bytes_ipHeader] at h
  have hn : ∀ p n, (w.bytes p n).length = n := fun p n => length_readN _ _ _
  obtain ⟨hstart, hend⟩ := List.append_inj h (by simp [hn, ha, hc])
  obtain ⟨hstart, hmiddle⟩ := List.append_inj hstart (by simp [hn, ha])
  obtain ⟨hfirst, hlen⟩ := List.append_inj hstart (by simp [hn, ha])
  obtain ⟨-, haddrs⟩ := List.append_inj hend (by simp)
  obtain ⟨hsrc, hdst⟩ := List.append_inj haddrs (by simp)
  exact ⟨hfirst, bytes16_inj hlen, hmiddle, bytes32_inj hsrc, bytes32_inj hdst⟩

/-- The parts of a frame in the buffer. -/
theorem parts_of_frame {v : World} {dstMac srcMac : Mac} {protocol : UInt16}
    {header payload : List UInt8} (hh : header.length = 20)
    (h : v.bytes rxBuffer (34 + payload.length) =
      ethFrame dstMac srcMac protocol (header ++ payload)) :
    v.u16 (rxBuffer + 12) = swap16 protocol ∧ v.bytes (rxBuffer + 14) 20 = header ∧
      v.bytes (rxBuffer + 34) payload.length = payload := by
  have hn : ∀ p n, (v.bytes p n).length = n := fun p n => length_readN _ _ _
  rw [show 34 + payload.length = 12 + 2 + (20 + payload.length) from by omega, bytes_add, bytes_add,
    bytes_add, ethFrame, Ptr.add_add] at h
  obtain ⟨hstart, hpacket⟩ := List.append_inj h (by simp [hn])
  obtain ⟨-, htype⟩ := List.append_inj hstart (by simp [hn])
  obtain ⟨hheader, hpayload⟩ := List.append_inj hpacket (by rw [hn, hh])
  rw [bytes_two] at htype
  exact ⟨bytes16_inj htype, hheader, hpayload⟩

/-- What another instance finds when the frame is in its receive buffer: the type after
`eth_header_ntoh`, a valid header, and after `ip_header_ntoh` its fields in host order. -/
def ReadsBack (v : World) (ip dst : UInt32) (payload : List UInt8) (protocol : UInt32) : Prop :=
  ∃ v₁ v₂ v₃, ethHeaderNtoh rxBuffer v = (.ok (), v₁) ∧
    v₁.u16 (rxBuffer + 12) = ETH_P_IP ∧
    ipHeaderCheck (rxBuffer + 14) v₁ = (.ok true, v₂) ∧
    ipHeaderNtoh (rxBuffer + 14) v₂ = (.ok (), v₃) ∧
    ipHeaderGetVersion (v₃.u8 (rxBuffer + 14)) = 4 ∧
    ipHeaderGetHeaderLength (v₃.u8 (rxBuffer + 14)) = 5 ∧
    v₃.u32 (rxBuffer + 14 + 12) = ntohl ip ∧
    v₃.u32 (rxBuffer + 14 + 16) = dst ∧
    (v₃.u8 (rxBuffer + 14 + 9)).toNat = protocol.toNat ∧
    ipHeaderGetPayloadLength (v₃.u16 (rxBuffer + 14 + 2)) = payload.length ∧
    v₃.bytes (rxBuffer + 14 + 20) payload.length = payload

theorem readsBack_sentPacket {v : World} {mac srcMac : Mac} {ip dst : UInt32}
    {payload : List UInt8} (hlen : payload.length ≤ 65515) {protocol : UInt32}
    (hp : protocol.toNat < 256)
    (h : v.bytes rxBuffer (34 + payload.length) =
      ethFrame mac srcMac ETH_P_IP (sentPacket ip dst payload protocol)) :
    ReadsBack v ip dst payload protocol := by
  have hseal := length_sealHeader (headerStart payload.length protocol)
    (bytes32 ip ++ bytes32 (htonl dst))
  rw [length_headerStart, List.length_append, length_bytes32, length_bytes32] at hseal
  obtain ⟨htype, hheader, hpayload⟩ := parts_of_frame hseal h
  -- `eth_header_ntoh` leaves the packet alone.
  have hsame : ∀ {i n}, 14 ≤ i → v.ethNtoh.bytes (rxBuffer + i) n = v.bytes (rxBuffer + i) n :=
    fun hi => readN_congr fun j h1 _ => ethNtoh_mem v (Or.inr (by
      simp only [rxBuffer, Ptr.add_off] at h1; omega))
  have hheader₁ := (hsame (Nat.le_refl 14)).trans hheader
  have hpayload₁ : v.ethNtoh.bytes (rxBuffer + 14 + 20) payload.length = payload :=
    (hsame (by decide)).trans hpayload
  have hcheck : internetChecksum (v.ethNtoh.bytes (rxBuffer + 14) 20) = 0 := by
    rw [hheader₁]
    exact sealHeader_checksum (length_headerStart _ _) (by simp)
  generalize hv₁ : v.ethNtoh = v₁ at hheader₁ hpayload₁ hcheck
  obtain ⟨hstart, htotal, hmiddle, hsrc, hdst⟩ := fields_of_header (by simp) (by simp) hheader₁
  have hversion : v₁.u8 (rxBuffer + 14) = 0x45 := u8_of_bytes hstart (i := 0) (by decide)
  have hprotocol : v₁.u8 (rxBuffer + 14 + 9) = protocol.toUInt8 :=
    u8_of_bytes hmiddle (i := 5) (by decide)
  have hfirst : ((v₁.touch (rxBuffer + 14) 20).ipNtoh (rxBuffer + 14)).u8 (rxBuffer + 14) = 0x45 :=
    (ipNtoh_u8 _ _ (i := 0) (by omega) (by omega)).trans hversion
  refine ⟨v₁, v₁.touch (rxBuffer + 14) 20, (v₁.touch (rxBuffer + 14) 20).ipNtoh (rxBuffer + 14),
    by rw [← hv₁]; rfl, ?_, ?_, rfl, ?_, ?_, ?_, ?_, ?_, ?_, ?_⟩
  · rw [← hv₁, ethNtoh_etherType, htype]
    rfl
  · unfold ipHeaderCheck
    rw [loadBytes_bind, sizeofIpHeader, hcheck]
    rfl
  · rw [hfirst]
    decide
  · rw [hfirst]
    decide
  · rw [ipNtoh_src, touch_u32, hsrc]
  · rw [ipNtoh_dst, touch_u32, hdst]
    exact swap32_swap32 dst
  · rw [ipNtoh_u8 _ _ (by omega) (by omega), touch_u8, hprotocol,
      UInt32.toNat_toUInt8, Nat.mod_eq_of_lt (by omega)]
  · rw [ipNtoh_len, touch_u16, htotal]
    have hreal : (ntohs (htons (UInt16.ofNat (20 + payload.length)))).toNat = 20 + payload.length := by
      unfold ntohs
      rw [htons, swap16_swap16, UInt16.toNat_ofNat', Nat.mod_eq_of_lt (by omega)]
    unfold ipHeaderGetPayloadLength
    rw [hreal, sizeofIpHeader]
    omega
  · rw [ipNtoh_bytes _ _ (by omega) (by omega), touch_bytes, hpayload₁]

/-- **IPv4 send and receive are inverse.** `ip_send` to a cached address emits exactly one frame, of
`34 + len` bytes and to the cached MAC address, and any instance that has the frame in its receive
buffer reads back what was sent. -/
theorem ip_send_receive {host : ArpHost} {w : World} (hw : w.Reachable host) {dst : UInt32}
    {mac : Mac} (hlook : w.cache.lookup (htonl dst) = some mac) {payload : List UInt8}
    (hlen : payload.length ≤ 65515) {protocol : UInt32} (hp : protocol.toNat < 256) :
    ∃ w' frame, ipSend dst payload protocol w = (.ok (), w') ∧ w'.wire = w.wire ++ [frame] ∧
      frame.length = 34 + payload.length ∧ frame.take 6 = mac.toList ∧
      ∀ v : World, v.bytes rxBuffer frame.length = frame →
        ReadsBack v host.ip dst payload protocol := by
  obtain ⟨hr, rfl, hv⟩ := hw.up
  obtain ⟨w', hrun, -, hserves⟩ := ipSend_spec hr hv hlook hlen protocol
  have hflen : (ethFrame mac w.net.mac ETH_P_IP
      (sentPacket w.net.ip dst payload protocol)).length = 34 + payload.length := by
    rw [length_ethFrame, length_sentPacket]
    omega
  refine ⟨w', _, hrun, hserves.wire, hflen, ?_, fun v hv => ?_⟩
  · unfold ethFrame
    rw [List.append_assoc, List.append_assoc, List.take_left' mac.length_toList]
  · rw [hflen] at hv
    exact readsBack_sentPacket hlen hp hv

/-- Five bytes to a neighbour that has been heard. -/
theorem ip_send_receive_sample :
    ∃ (host : ArpHost) (w w' : World) (frame : Frame), w.Reachable host ∧
      ipSend 0x0a000002 [1, 2, 3, 4, 5] 17 w = (.ok (), w') ∧ w'.wire = w.wire ++ [frame] ∧
      frame.length = 39 ∧ ∀ v : World, v.bytes rxBuffer frame.length = frame →
        ReadsBack v host.ip 0x0a000002 [1, 2, 3, 4, 5] 17 := by
  obtain ⟨w, hw, hlook⟩ := exists_learned ⟨0x0100000a, sampleMac 1⟩
    ⟨htonl 0x0a000002, sampleMac 2⟩
  obtain ⟨w', frame, hrun, hwire, hflen, -, hread⟩ :=
    ip_send_receive hw hlook (show [1, 2, 3, 4, 5].length ≤ 65515 by decide)
      (show (17 : UInt32).toNat < 256 by decide)
  exact ⟨_, w, w', frame, hw, hrun, hwire, hflen, hread⟩

end TcpIp
