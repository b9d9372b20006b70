import TcpIp.Main
import TcpIp.Protocols.IpReceive

/-!
# One round of the receive loop

`processIoBody_spec` takes a round of `process_io` apart: the read leaves the buffer as
`World.deliver` says, `eth_header_ntoh` swaps the type, and the rest is the handler that the type
selects. One lemma for each outcome: an ARP frame (`processIoBody_arp`), an IPv4 packet without
effect (`processIoBody_silent`), an echo request that is answered (`processIoBody_hit`) or stops the
process (`processIoBody_miss`), another type (`processIoBody_other`).
-/

namespace TcpIp

open Bytes Prog World

/-- The stack after `net_interface_init` and `arp_init`. -/
def World.boot (mem : Obj → Nat → UInt8) (host : ArpHost) (cache : ArpCache) : World :=
  { mem, touched := [], net := netInterfaceStart host.ip host.mac, cache, wire := [] }

/-- The receive buffer of the thread that runs next. -/
def World.withRx (w : World) (buffer : Nat → UInt8) : World :=
  { w with mem := Function.update w.mem .rx buffer }

/-- The memory after a read: a frame overwrites the first bytes of the buffer, a failure leaves it
as it is. -/
def World.deliver (w : World) (input : ReadResult) : World :=
  match input with
  | none => w
  | some frame => w.write rxBuffer (frame.take BUFLEN)

/-- The world in which `handle_frame` runs. -/
def World.ethNtoh (w : World) : World :=
  ((w.touch (rxBuffer + 12) 2).touch (rxBuffer + 12) 2).write (rxBuffer + 12)
    (bytes16 (ntohs (w.u16 (rxBuffer + 12))))

section Deliver

variable (w : World) (input : ReadResult)

@[simp] theorem withRx_net (buffer : Nat → UInt8) : (w.withRx buffer).net = w.net := rfl
@[simp] theorem withRx_cache (buffer : Nat → UInt8) : (w.withRx buffer).cache = w.cache := rfl
@[simp] theorem withRx_wire (buffer : Nat → UInt8) : (w.withRx buffer).wire = w.wire := rfl

@[simp] theorem deliver_net : (w.deliver input).net = w.net := by cases input <;> rfl
@[simp] theorem deliver_cache : (w.deliver input).cache = w.cache := by cases input <;> rfl
@[simp] theorem deliver_wire : (w.deliver input).wire = w.wire := by cases input <;> rfl

@[simp] theorem ethNtoh_net : w.ethNtoh.net = w.net := rfl
@[simp] theorem ethNtoh_cache : w.ethNtoh.cache = w.cache := rfl
@[simp] theorem ethNtoh_wire : w.ethNtoh.wire = w.wire := rfl

/-- The delivered bytes. -/
theorem deliver_mem {frame : Frame} {i : Nat} (h1 : i < frame.length) (h2 : i < BUFLEN) :
    (w.deliver (some frame)).mem .rx i = frame.getD i 0 := by
  rw [deliver, write_mem_same (o := .rx) _ _ _ rfl,
    writeL_apply_in (p := rxBuffer.off) (Nat.zero_le _) (by simp [rxBuffer]; omega),
    List.getD_eq_getElem _ _ h1]
  simp [rxBuffer]

/-- `eth_header_ntoh` changes the two bytes of the type only. -/
theorem ethNtoh_mem {i : Nat} (h : i < 12 ∨ 14 ≤ i) : w.ethNtoh.mem .rx i = w.mem .rx i := by
  unfold ethNtoh
  rw [write_mem_same (o := .rx) _ _ _ rfl]
  exact writeL_apply_out (by simp only [rxBuffer, Ptr.add_off, length_bytes16]; omega)

@[simp] theorem ethNtoh_etherType :
    w.ethNtoh.u16 (rxBuffer + 12) = ntohs (w.u16 (rxBuffer + 12)) :=
  write_u16_same _

end Deliver

/-- Marking a queue busy and then free again leaves a ready interface as it was. -/
theorem setBusy_setBusy {net : NetInterface} (hr : net.Ready) :
    setBusy 0 false (setBusy 0 true net) = net := by
  simp only [setBusy, List.set_set, hr.idle]
  rw [show (List.replicate TUN_QUEUES false).set 0 false = net.busyStatus by rw [hr.idle]; rfl]

theorem netInterfaceRead_spec {w : World} (hr : w.net.Ready) (input : ReadResult) :
    ∃ n, netInterfaceRead rxBuffer BUFLEN input w = (.ok n, w.deliver input) := by
  have hnet := setBusy_setBusy hr
  cases input with
  | none =>
    refine ⟨-1, ?_⟩
    simp only [netInterfaceRead, gets_bind, available_ready hr, modifyNet_bind, pure_bind, hnet]
    rfl
  | some frame =>
    refine ⟨((frame.take BUFLEN).length : Int), ?_⟩
    simp only [netInterfaceRead, gets_bind, available_ready hr]
    show (Except.ok _, World.mk _ _ (setBusy 0 false (setBusy 0 true w.net)) _ _) = _
    rw [hnet]
    rfl

theorem handleFrame_arp {w : World} {p : Ptr} (h : w.u16 (p + 12) = ETH_P_ARP) :
    handleFrame p w = (arpReceive p >>= fun _ => pure true) (w.touch (p + 12) 2) := by
  unfold handleFrame
  rw [loadU16_bind, if_pos h]

theorem handleFrame_ip {w : World} {p : Ptr} (h : w.u16 (p + 12) = ETH_P_IP) :
    handleFrame p w = (ipReceive p >>= fun _ => pure false) (w.touch (p + 12) 2) := by
  rw [handleFrame, loadU16_bind, if_neg (by rw [h]; decide), if_pos h]

theorem handleFrame_other {w : World} {p : Ptr} (h1 : w.u16 (p + 12) ≠ ETH_P_ARP)
    (h2 : w.u16 (p + 12) ≠ ETH_P_IP) : handleFrame p w = (.ok false, w.touch (p + 12) 2) := by
  unfold handleFrame
  rw [loadU16_bind, if_neg h1, if_neg h2]
  rfl

/-- A round of the loop is the handlers on what the buffer holds after the read. -/
theorem processIoBody_spec {w : World} (hr : w.net.Ready) (input : ReadResult) :
    processIoBody input w =
      (handleFrame rxBuffer >>= fun _ => pure ()) (w.deliver input).ethNtoh := by
  obtain ⟨n, hread⟩ := netInterfaceRead_spec hr input
  exact bind_ok hread

/-- A round with an ARP frame in the buffer. -/
theorem processIoBody_arp {w : World} (hr : w.net.Ready) {input : ReadResult}
    (ht : ntohs ((w.deliver input).u16 (rxBuffer + 12)) = ETH_P_ARP) {cache' : ArpCache}
    (hm : arpMerge w.net.ip ((w.deliver input).arpMessage (rxBuffer + 14)) w.cache = .ok cache') :
    ∃ w', processIoBody input w = (.ok (), w') ∧ w'.cache = cache' ∧
      w.Serves w' (w.net.host.replies ((w.deliver input).arpMessage (rxBuffer + 14))) := by
  have hmsg : ((w.deliver input).ethNtoh.touch (rxBuffer + 12) 2).arpMessage (rxBuffer + 14) =
      (w.deliver input).arpMessage (rxBuffer + 14) :=
    ArpMessage.ofBytes_congr fun i h1 _ => ethNtoh_mem _ (Or.inr h1)
  obtain ⟨w', hrun, hcache, hserves⟩ := arpReceive_spec
    (w := (w.deliver input).ethNtoh.touch (rxBuffer + 12) 2) (by simpa using hr) rxBuffer
    (by simpa [hmsg] using hm)
  refine ⟨w', ?_, hcache, ?_⟩
  · rw [processIoBody_spec hr, bind_ok ((handleFrame_arp (by rw [ethNtoh_etherType, ht])).trans
      (bind_ok hrun))]
    rfl
  · rw [hmsg] at hserves
    simpa using hserves.start (w := w) (by simp) (by simp)

/-! ## Rounds with an IPv4 packet in the buffer -/

section Ip

variable {w : World} {input : ReadResult}

/-- The packet is not touched by `eth_header_ntoh`. -/
theorem ethNtoh_packet (w : World) :
    (w.ethNtoh.touch (rxBuffer + 12) 2).totalLength (rxBuffer + 14) =
        w.totalLength (rxBuffer + 14) ∧
      (w.ethNtoh.touch (rxBuffer + 12) 2).packet (rxBuffer + 14) = w.packet (rxBuffer + 14) := by
  have hlen : (w.ethNtoh.touch (rxBuffer + 12) 2).totalLength (rxBuffer + 14) =
      w.totalLength (rxBuffer + 14) := by
    simp [totalLength, ethNtoh]
  refine ⟨hlen, ?_⟩
  unfold packet
  rw [hlen]
  exact readN_congr fun i h1 _ => ethNtoh_mem _ (Or.inr h1)

/-- The round is `ip_receive`. -/
theorem processIoBody_ip (hr : w.net.Ready)
    (ht : ntohs ((w.deliver input).u16 (rxBuffer + 12)) = ETH_P_IP) :
    processIoBody input w = (ipReceive rxBuffer >>= fun _ => pure ())
      ((w.deliver input).ethNtoh.touch (rxBuffer + 12) 2) := by
  rw [processIoBody_spec hr, bind_run_congr (handleFrame_ip (by rw [ethNtoh_etherType, ht])),
    bind_assoc]
  rfl

/-- Anything but a valid echo request has no effect. -/
theorem processIoBody_silent (hr : w.net.Ready)
    (ht : ntohs ((w.deliver input).u16 (rxBuffer + 12)) = ETH_P_IP)
    (hL : 20 ≤ (w.deliver input).totalLength (rxBuffer + 14))
    (h : ¬ IsEchoRequest ((w.deliver input).packet (rxBuffer + 14))) :
    ∃ w', processIoBody input w = (.ok (), w') ∧ w.SameStatics w' := by
  obtain ⟨hlen, hpacket⟩ := ethNtoh_packet (w.deliver input)
  obtain ⟨w', hrun, hs⟩ := ipReceive_silent (p := rxBuffer)
    (w := (w.deliver input).ethNtoh.touch (rxBuffer + 12) 2) (by rwa [hlen]) (by rwa [hpacket])
  refine ⟨w', by rw [processIoBody_ip hr ht, bind_ok hrun]; rfl, ?_⟩
  exact World.SameStatics.trans ⟨by simp, by simp, by simp⟩ hs

/-- An echo request from a cached address is answered. -/
theorem processIoBody_hit (hr : w.net.Ready) (hv : w.cache.Valid)
    (ht : ntohs ((w.deliver input).u16 (rxBuffer + 12)) = ETH_P_IP)
    (hL : 20 ≤ (w.deliver input).totalLength (rxBuffer + 14))
    (h : IsEchoRequest ((w.deliver input).packet (rxBuffer + 14))) {mac : Mac}
    (hlook : w.cache.lookup (packetSrc ((w.deliver input).packet (rxBuffer + 14))) = some mac) :
    ∃ w', processIoBody input w = (.ok (), w') ∧ w'.cache = w.cache ∧
      w.Serves w' [ethFrame mac w.net.mac ETH_P_IP
        (echoReply w.net.ip ((w.deliver input).packet (rxBuffer + 14)))] := by
  obtain ⟨hlen, hpacket⟩ := ethNtoh_packet (w.deliver input)
  obtain ⟨w', hrun, hcache, hserves⟩ := ipReceive_hit (p := rxBuffer)
    (w := (w.deliver input).ethNtoh.touch (rxBuffer + 12) 2) (by simpa using hr) (by simpa using hv)
    (by rwa [hlen]) (by rwa [hpacket]) (by rw [hpacket]; simpa using hlook)
  refine ⟨w', by rw [processIoBody_ip hr ht, bind_ok hrun]; rfl, by simpa using hcache, ?_⟩
  rw [hpacket] at hserves
  simpa using hserves.start (w := w) (by simp) (by simp)

/-- An echo request from another address stops the process, after an ARP request. -/
theorem processIoBody_miss (hr : w.net.Ready) (hv : w.cache.Valid)
    (ht : ntohs ((w.deliver input).u16 (rxBuffer + 12)) = ETH_P_IP)
    (hL : 20 ≤ (w.deliver input).totalLength (rxBuffer + 14))
    (h : IsEchoRequest ((w.deliver input).packet (rxBuffer + 14)))
    (hlook : w.cache.lookup (packetSrc ((w.deliver input).packet (rxBuffer + 14))) = none) :
    ∃ w', processIoBody input w = (.error (.exit 1), w') ∧ w'.cache = w.cache ∧
      w.Serves w' [w.net.host.request (packetSrc ((w.deliver input).packet (rxBuffer + 14)))] := by
  obtain ⟨hlen, hpacket⟩ := ethNtoh_packet (w.deliver input)
  obtain ⟨w', hrun, hcache, hserves⟩ := ipReceive_miss (p := rxBuffer)
    (w := (w.deliver input).ethNtoh.touch (rxBuffer + 12) 2) (by simpa using hr) (by simpa using hv)
    (by rwa [hlen]) (by rwa [hpacket]) (by rw [hpacket]; simpa using hlook)
  refine ⟨w', by rw [processIoBody_ip hr ht, bind_error hrun], by simpa using hcache, ?_⟩
  rw [hpacket] at hserves
  simpa using hserves.start (w := w) (by simp) (by simp)

end Ip

/-- A frame of another type has no effect. -/
theorem processIoBody_other {w : World} {input : ReadResult} (hr : w.net.Ready)
    (h1 : ntohs ((w.deliver input).u16 (rxBuffer + 12)) ≠ ETH_P_ARP)
    (h2 : ntohs ((w.deliver input).u16 (rxBuffer + 12)) ≠ ETH_P_IP) :
    ∃ w', processIoBody input w = (.ok (), w') ∧ w.SameStatics w' := by
  refine ⟨(w.deliver input).ethNtoh.touch (rxBuffer + 12) 2, ?_, ?_⟩
  · rw [processIoBody_spec hr, bind_ok (handleFrame_other (by rwa [ethNtoh_etherType])
      (by rwa [ethNtoh_etherType]))]
    rfl
  · exact ⟨by simp, by simp, by simp⟩

end TcpIp
