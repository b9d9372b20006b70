import TcpIp.Protocols.IpRoundTrip

/-!
# The sizes of a datagram (`ip_header_alloc`, `ip_send`)

`ip_send` has the length of the payload in a `uint32_t`, `ip_header_alloc` takes a `uint16_t`, and the
total length is a `uint16_t` again, of 20 bytes more. From 65516 bytes on the total length is cut
while the block is still large enough; from 65536 bytes on the block is too small.

* `ipSend_emits`: a frame is emitted for any length, with as many bytes of the packet as the total
  length says.
* `ip_send_sized_iff`: the payloads for which all the sizes agree.
-/

namespace TcpIp

open Bytes Prog World

/-- `sizeof(struct ip_header) + len`, the size of the block for a `uint16_t`. -/
def ipHeaderAllocSize (len : UInt16) : Nat := sizeofIpHeader + len.toNat

/-- Nothing is emitted; or the block has room for the payload, the total length in the frame is right,
and the frame ends with the payload. -/
def SendsSized (w : World) (dst : UInt32) (payload : List UInt8) (protocol : UInt32) : Prop :=
  (ipSend dst payload protocol w).2.wire = w.wire ∨
    20 + payload.length ≤ ipHeaderAllocSize (UInt16.ofNat payload.length) ∧
      ∃ frame, (ipSend dst payload protocol w).2.wire = w.wire ++ [frame] ∧
        be16 frame 16 = 20 + payload.length ∧ frame.drop 34 = payload

/-- The parts of the frame that carries a packet of `ip_send`. -/
theorem sentFrame_parts (dstMac srcMac : Mac) (ip dst : UInt32) {payload : List UInt8}
    (hlen : payload.length ≤ 65515) (protocol : UInt32) :
    be16 (ethFrame dstMac srcMac ETH_P_IP (sentPacket ip dst payload protocol)) 16 =
        20 + payload.length ∧
      (ethFrame dstMac srcMac ETH_P_IP (sentPacket ip dst payload protocol)).drop 34 = payload := by
  have htotal : (UInt16.ofNat (20 + payload.length)).toNat = 20 + payload.length := by
    rw [UInt16.toNat_ofNat', Nat.mod_eq_of_lt (by omega)]
  constructor
  · refine Eq.trans ?_ htotal
    have hstart : (dstMac.toList ++ srcMac.toList ++ bytes16 (swap16 ETH_P_IP) ++
        [0x45, 0]).length = 16 := by simp
    rw [← be16_append hstart (UInt16.ofNat (20 + payload.length))]
    simp only [ethFrame, sentPacket, sealHeader, headerStart, htons, List.append_assoc]
    rfl
  · rw [ethFrame, sentPacket, ← List.append_assoc]
    refine List.drop_left' ?_
    simp [length_sealHeader, length_headerStart]

section Send

variable {w : World} {dst : UInt32} {mac : Mac} {payload : List UInt8}

/-- `ip_send` to a cached address emits a frame for every length. -/
theorem ipSend_emits (hr : w.net.Ready) (hv : w.cache.Valid)
    (hlook : w.cache.lookup (htonl dst) = some mac) (payload : List UInt8) (protocol : UInt32) :
    ∃ frame, (ipSend dst payload protocol w).2.wire = w.wire ++ [frame] ∧
      frame.length = 14 + (20 + payload.length % 65536) % 65536 := by
  obtain ⟨q, W, h, hsend⟩ := ipSend_packet w dst payload protocol
  have hs := h.statics
  obtain ⟨w₁, w', -, hrun, -, hserves⟩ := ipSendPacket_cached (w := W) (q := q) (by rwa [hs.net])
    (by rwa [hs.cache]) (by rwa [h.dst, hs.cache])
  have hwire := hserves.wire
  rw [hs.wire] at hwire
  rw [hsend, hrun]
  refine ⟨_, hwire, ?_⟩
  rw [length_ethFrame, bytes, length_readN, h.len, UInt16.toNat_ofNat', UInt16.toNat_ofNat']

/-- Up to 65515 bytes the sizes agree. -/
theorem sendsSized_of_le (hr : w.net.Ready) (hv : w.cache.Valid)
    (hlook : w.cache.lookup (htonl dst) = some mac) (hlen : payload.length ≤ 65515)
    (protocol : UInt32) : SendsSized w dst payload protocol := by
  obtain ⟨w', hrun, -, hserves⟩ := ipSend_spec hr hv hlook hlen protocol
  obtain ⟨htotal, hpayload⟩ := sentFrame_parts mac w.net.mac w.net.ip dst hlen protocol
  refine Or.inr ⟨?_, _, ?_, htotal, hpayload⟩
  · rw [ipHeaderAllocSize, sizeofIpHeader, UInt16.toNat_ofNat', Nat.mod_eq_of_lt (by omega)]
  · rw [hrun, hserves.wire]

/-- From 65516 bytes on the frame or the block is too short. -/
theorem not_sendsSized_of_gt (hr : w.net.Ready) (hv : w.cache.Valid)
    (hlook : w.cache.lookup (htonl dst) = some mac) (hlen : 65515 < payload.length)
    (protocol : UInt32) : ¬ SendsSized w dst payload protocol := by
  obtain ⟨frame, hwire, hframe⟩ := ipSend_emits hr hv hlook payload protocol
  rintro (hnone | ⟨hblock, frame', hwire', -, hpayload⟩)
  · rw [hwire] at hnone
    simp at hnone
  · rw [ipHeaderAllocSize, sizeofIpHeader, UInt16.toNat_ofNat'] at hblock
    rw [hwire, List.append_cancel_left_eq, List.cons.injEq] at hwire'
    obtain ⟨rfl, -⟩ := hwire'
    have hcut := congrArg List.length hpayload
    rw [List.length_drop, hframe] at hcut
    omega

end Send

/-- **`ip_send` sizes its datagram right** for up to 65515 bytes, and for no more. -/
theorem ip_send_sized_iff {host : ArpHost} {w : World} (hw : w.Reachable host) {dst : UInt32}
    {mac : Mac} (hlook : w.cache.lookup (htonl dst) = some mac) (payload : List UInt8)
    (protocol : UInt32) : SendsSized w dst payload protocol ↔ payload.length ≤ 65515 := by
  obtain ⟨hr, -, hv⟩ := hw.up
  constructor
  · intro h
    apply Classical.byContradiction
    intro hlen
    exact not_sendsSized_of_gt hr hv hlook (by omega) protocol h
  · exact fun hlen => sendsSized_of_le hr hv hlook hlen protocol

theorem ip_send_sized_five : ∃ w : World, SendsSized w 0x0a000002 [1, 2, 3, 4, 5] 17 := by
  obtain ⟨w, hw, hlook⟩ := exists_learned ⟨0x0100000a, sampleMac 1⟩
    ⟨htonl 0x0a000002, sampleMac 2⟩
  exact ⟨w, (ip_send_sized_iff hw hlook [1, 2, 3, 4, 5] 17).mpr (by decide)⟩

/-- 65516 bytes are sent as a frame of 14, and 65536 are copied to a block of 20. -/
theorem ip_send_cuts : ∃ (host : ArpHost) (w : World), w.Reachable host ∧
    w.cache.lookup (htonl 0x0a000002) = some (sampleMac 2) ∧
    (∃ frame, (ipSend 0x0a000002 (List.replicate 65516 0) 17 w).2.wire = w.wire ++ [frame] ∧
      frame.length = 14) ∧
    ¬ SendsSized w 0x0a000002 (List.replicate 65516 0) 17 ∧
    ipHeaderAllocSize (UInt16.ofNat 65536) = 20 ∧
    ¬ SendsSized w 0x0a000002 (List.replicate 65536 0) 17 := by
  obtain ⟨w, hw, hlook⟩ := exists_learned ⟨0x0100000a, sampleMac 1⟩
    ⟨htonl 0x0a000002, sampleMac 2⟩
  obtain ⟨hr, -, hv⟩ := hw.up
  have hlen : ∀ n : Nat, (List.replicate n (0 : UInt8)).length = n := fun n =>
    List.length_replicate
  obtain ⟨frame, hwire, hframe⟩ := ipSend_emits hr hv hlook (List.replicate 65516 0) 17
  rw [hlen] at hframe
  exact ⟨_, w, hw, hlook, ⟨frame, hwire, hframe⟩,
    not_sendsSized_of_gt hr hv hlook (by rw [hlen]; decide) 17, by decide,
    not_sendsSized_of_gt hr hv hlook (by rw [hlen]; decide) 17⟩

end TcpIp
