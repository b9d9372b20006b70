import TcpIp.Reception

/-!
# What a round does, as a function of the buffer

`reaction host cache m` is the outcome of a round that finds `m` in the receive buffer: the frames
it emits and the cache it leaves. `processIoBody_reaction` says that every round has this outcome,
also for total lengths that do not fit the buffer: a length below 20 wraps the length of the ICMP
message and cuts the reply inside its header.
-/

namespace TcpIp

open Bytes Prog World

/-! ## The buffer after a read -/

/-- The bytes that a read delivers. -/
def bytesRead : ReadResult → List UInt8
  | none => []
  | some frame => frame.take BUFLEN

/-- The buffer after a read, also a failed one. -/
def bufferAfter (buffer : Nat → UInt8) (input : ReadResult) : Nat → UInt8 :=
  writeL buffer 0 (bytesRead input)

/-- The source address of the packet in a buffer, as the raw word. -/
def bufferSrc (m : Nat → UInt8) : UInt32 := le32 (m 26) (m 27) (m 28) (m 29)

/-- What the handlers test before they answer the packet in a buffer. -/
structure BufferEcho (m : Nat → UInt8) : Prop where
  header : internetChecksum (readN m 14 20) = 0
  protocol : m 23 = PROTOCOL_ICMP
  icmp : internetChecksum (readN m 34 (payloadLength32 (le16 (m 17) (m 16)))) = 0
  type : m 34 = ICMP_ECHO_REQUEST

instance (m : Nat → UInt8) : Decidable (BufferEcho m) :=
  decidable_of_iff (internetChecksum (readN m 14 20) = 0 ∧ m 23 = PROTOCOL_ICMP ∧
      internetChecksum (readN m 34 (payloadLength32 (le16 (m 17) (m 16)))) = 0 ∧
      m 34 = ICMP_ECHO_REQUEST)
    ⟨fun ⟨h1, h2, h3, h4⟩ => ⟨h1, h2, h3, h4⟩, fun ⟨h1, h2, h3, h4⟩ => ⟨h1, h2, h3, h4⟩⟩

/-- The packet that answers the one in a buffer. -/
def bufferReply (ip : UInt32) (m : Nat → UInt8) : List UInt8 :=
  if 20 ≤ bufferLength m then echoReply ip (bufferPacket m)
  else (sealHeader (readN m 14 10) (bytes32 ip ++ readN m 26 4)).take (bufferLength m)

/-- The frames a round emits and the cache it leaves. -/
def reaction (host : ArpHost) (cache : ArpCache) (m : Nat → UInt8) : List Frame × ArpCache :=
  if bufferType m = ETH_P_ARP then
    (host.replies (.ofBytes m 14), (arpMerge host.ip (.ofBytes m 14) cache).toOption.getD cache)
  else if bufferType m = ETH_P_IP ∧ BufferEcho m then
    match cache.lookup (bufferSrc m) with
    | some mac => ([ethFrame mac host.mac ETH_P_IP (bufferReply host.ip m)], cache)
    | none => ([host.request (bufferSrc m)], cache)
  else ([], cache)

/-! ## Rounds -/

section Fields

variable {w : World} {m : Nat → UInt8}

/-- The IPv4 fields of a world with `m` in its receive buffer, past the type. -/
theorem rx_fields (hm : ∀ i, 14 ≤ i → w.mem .rx i = m i) :
    w.totalLength (rxBuffer + 14) = bufferLength m ∧
      w.packet (rxBuffer + 14) = bufferPacket m ∧
      w.u32 (rxBuffer + 14 + 12) = bufferSrc m ∧
      (w.EchoTest (rxBuffer + 14) ↔ BufferEcho m) := by
  have hu8 : ∀ i, 14 ≤ i → w.u8 (rxBuffer + i) = m i := by
    intro i hi
    rw [← hm i hi]
    simp [u8, rxBuffer]
  have hbytes : ∀ i n, 14 ≤ i → w.bytes (rxBuffer + i) n = readN m i n := by
    intro i n hi
    show readN (w.mem .rx) (0 + i) n = _
    rw [Nat.zero_add]
    exact readN_congr fun j hj _ => hm j (by omega)
  have hlen : ntohs (w.u16 (rxBuffer + 14 + 2)) = le16 (m 17) (m 16) := by
    unfold u16
    rw [Ptr.add_add, Ptr.add_add, hu8 _ (by omega), hu8 _ (by omega)]
    exact swap16_le16 _ _
  have htotal : w.totalLength (rxBuffer + 14) = bufferLength m := congrArg UInt16.toNat hlen
  refine ⟨htotal, ?_, ?_, ?_⟩
  · unfold packet
    rw [htotal, hbytes _ _ (by omega)]
    rfl
  · simp only [u32, Ptr.add_add]
    rw [hu8 _ (by omega), hu8 _ (by omega), hu8 _ (by omega), hu8 _ (by omega)]
    rfl
  · have h23 : w.u8 (rxBuffer + 14 + 9) = m 23 := by rw [Ptr.add_add]; exact hu8 23 (by omega)
    have h34 : w.u8 (rxBuffer + 14 + 20) = m 34 := by rw [Ptr.add_add]; exact hu8 34 (by omega)
    have hicmp : ∀ n, w.bytes (rxBuffer + 14 + 20) n = readN m 34 n := fun n => by
      rw [Ptr.add_add]; exact hbytes 34 n (by omega)
    constructor
    · rintro ⟨h1, h2, h3, h4⟩
      rw [hbytes _ _ (by omega)] at h1
      rw [hicmp, hlen] at h3
      exact ⟨h1, h23.symm.trans h2, h3, h34.symm.trans h4⟩
    · rintro ⟨h1, h2, h3, h4⟩
      rw [← hbytes _ _ (by omega)] at h1
      rw [← hicmp, ← hlen] at h3
      exact ⟨h1, h23.trans h2, h3, h34.trans h4⟩

end Fields

/-- The outcome of a run as a pair. -/
def World.Outcome (w w' : World) (r : List Frame × ArpCache) : Prop :=
  w'.wire = w.wire ++ r.1 ∧ w'.cache = r.2

theorem World.SameStatics.outcome {w w' : World} (h : w.SameStatics w') :
    w.Outcome w' ([], w.cache) :=
  ⟨by rw [h.wire, List.append_nil], h.cache⟩

/-- `ip_receive` on a buffer that holds `m`. -/
theorem ipReceive_reaction {w : World} {m : Nat → UInt8} (hr : w.net.Ready) (hv : w.cache.Valid)
    (htype : bufferType m = ETH_P_IP) (hm : ∀ i, 14 ≤ i → w.mem .rx i = m i) :
    w.Outcome (ipReceive rxBuffer w).2 (reaction w.net.host w.cache m) := by
  obtain ⟨htotal, hpacket, hsrc, htest⟩ := rx_fields hm
  rw [reaction, if_neg (by rw [htype]; decide)]
  by_cases hecho : BufferEcho m
  · rw [if_pos ⟨htype, hecho⟩]
    cases hlook : w.cache.lookup (bufferSrc m) with
    | none =>
      obtain ⟨w', hrun, hcache, hserves⟩ := ipReceive_unknown hr hv (htest.mpr hecho)
        (by rw [hsrc]; exact hlook)
      rw [hrun]
      rw [hsrc] at hserves
      exact ⟨hserves.wire, hcache⟩
    | some mac =>
      by_cases hL : 20 ≤ bufferLength m
      · have hL' : 20 ≤ w.totalLength (rxBuffer + 14) := by rwa [htotal]
        obtain ⟨w', hrun, hcache, hserves⟩ := ipReceive_hit hr hv hL'
          ((echoTest_iff hL').mp (htest.mpr hecho))
          (by rw [packetSrc_packet hL', hsrc]; exact hlook)
        rw [hrun]
        rw [hpacket] at hserves
        refine ⟨?_, hcache⟩
        unfold bufferReply
        rw [if_pos hL]
        exact hserves.wire
      · obtain ⟨w', hrun, hcache, hserves⟩ := ipReceive_short hr hv (by rw [htotal]; omega)
          (htest.mpr hecho) (by rw [hsrc]; exact hlook)
        have hstart : w.bytes (rxBuffer + 14) 10 = readN m 14 10 :=
          readN_congr fun i hi _ => hm i hi
        have haddr : w.bytes (rxBuffer + 14 + 12) 4 = readN m 26 4 :=
          readN_congr fun i hi _ => hm i (Nat.le_trans (by decide) hi)
        rw [hrun]
        rw [htotal, hstart, haddr] at hserves
        refine ⟨?_, hcache⟩
        unfold bufferReply
        rw [if_neg hL]
        exact hserves.wire
  · obtain ⟨w', hrun, hs⟩ := ipReceive_ignored (p := rxBuffer) fun h => hecho (htest.mp h)
    rw [if_neg fun h => hecho h.2, hrun]
    exact hs.outcome

/-- **What a round does.** In every state the stack can be in, a round emits the frames and leaves
the cache that `reaction` says, for every result of the read and every leftover in the buffer. -/
theorem processIoBody_reaction {host : ArpHost} {w : World} (hw : w.Up host)
    (buffer : Nat → UInt8) (input : ReadResult) :
    w.Outcome (processIoBody input (w.withRx buffer)).2
      (reaction host w.cache (bufferAfter buffer input)) := by
  obtain ⟨hr, rfl, hv⟩ := hw
  generalize hb : bufferAfter buffer input = m
  have hmem : ((w.withRx buffer).deliver input).mem .rx = m := by
    subst hb
    cases input with
    | none => simp [deliver, World.withRx, bufferAfter, bytesRead]
    | some frame => exact deliver_withRx_mem w buffer frame
  have htype : ntohs (((w.withRx buffer).deliver input).u16 (rxBuffer + 12)) = bufferType m := by
    rw [← hmem]
    exact swap16_le16 _ _
  by_cases harp : bufferType m = ETH_P_ARP
  · have hmsg : ((w.withRx buffer).deliver input).arpMessage (rxBuffer + 14) = .ofBytes m 14 := by
      rw [← hmem]
      rfl
    obtain ⟨cache', hm, -, -⟩ := hv.exists_merge w.net.ip (.ofBytes m 14)
    obtain ⟨w', hrun, hcache, hserves⟩ := processIoBody_arp (w := w.withRx buffer) hr
      (htype.trans harp) (by rw [hmsg]; exact hm)
    have hm' : arpMerge w.net.host.ip (.ofBytes m 14) w.cache = .ok cache' := hm
    rw [hrun, reaction, if_pos harp, hm']
    rw [hmsg] at hserves
    exact ⟨hserves.wire, hcache⟩
  by_cases hip : bufferType m = ETH_P_IP
  · rw [processIoBody_ip (w := w.withRx buffer) hr (htype.trans hip), bind_snd fun _ _ => rfl]
    have hout := ipReceive_reaction (m := m)
      (w := ((w.withRx buffer).deliver input).ethNtoh.touch (rxBuffer + 12) 2)
      (by simpa using hr) (by simpa using hv) hip
      (fun i hi => by rw [touch_mem, ethNtoh_mem _ (Or.inr hi), hmem])
    simpa [World.Outcome] using hout
  · obtain ⟨w', hrun, hs⟩ := processIoBody_other (w := w.withRx buffer) hr (by rwa [htype])
      (by rwa [htype])
    rw [hrun, reaction, if_neg harp, if_neg fun h => hip h.1]
    exact hs.outcome

end TcpIp
