import TcpIp.Protocols.Echo

/-!
# Runs of received frames

A `Reception` is a received frame together with what the receive buffer of its thread held before;
`seen` is the buffer that the handlers find. An IPv4 total length in it is at least 20 and lies
inside the received bytes.

Whether the process survives a frame depends on the traffic before it: `ArpHost.hear` follows the
ARP table, and `Answerable` says that each echo request comes from an address in the table at that
time. `receiveAll_iff` is the exact outcome of a run: it returns if and only if the receptions are
answerable, and the only other outcome is the `exit(1)` of `ip_send_packet`.
-/

namespace TcpIp

open Bytes Prog World

/-- The buffer after a read of `frame` into `buffer`. -/
def seenBuffer (buffer : Nat → UInt8) (frame : Frame) : Nat → UInt8 :=
  writeL buffer 0 (frame.take BUFLEN)

/-- The type of the frame in a buffer. -/
def bufferType (m : Nat → UInt8) : UInt16 := le16 (m 13) (m 12)

/-- The total length of the IPv4 packet in a buffer. -/
def bufferLength (m : Nat → UInt8) : Nat := (le16 (m 17) (m 16)).toNat

/-- The IPv4 packet in a buffer. -/
def bufferPacket (m : Nat → UInt8) : List UInt8 := readN m 14 (bufferLength m)

/-- A received frame and the buffer it is read into. -/
structure Reception where
  buffer : Nat → UInt8
  frame : Frame
  /-- An IPv4 total length is at least 20 and lies inside the received bytes. -/
  inBounds : bufferType (seenBuffer buffer frame) = ETH_P_IP →
    20 ≤ bufferLength (seenBuffer buffer frame) ∧
      bufferLength (seenBuffer buffer frame) + 14 ≤ min frame.length BUFLEN

namespace Reception

/-- What the handlers find in the buffer. -/
def seen (r : Reception) : Nat → UInt8 := seenBuffer r.buffer r.frame

/-- The reception of a valid echo request. -/
def IsEcho (r : Reception) : Prop :=
  bufferType r.seen = ETH_P_IP ∧ IsEchoRequest (bufferPacket r.seen)

/-- One round of `process_io`. -/
def run (r : Reception) : M Unit := do
  Prog.modify (·.withRx r.buffer)
  processIoBody (some r.frame)

end Reception

/-- The receptions, one at a time. -/
def receiveAll (rs : List Reception) : M Unit := rs.forM Reception.run

/-- The table after a reception. -/
def ArpHost.hear (host : ArpHost) (r : Reception) (table : ArpTable) : ArpTable :=
  if bufferType r.seen = ETH_P_ARP then host.merge (.ofBytes r.seen 14) table else table

/-- Each echo request comes from an address that is in the table at that time. -/
def Answerable (host : ArpHost) : List Reception → ArpTable → Prop
  | [], _ => True
  | r :: rs, table =>
    (r.IsEcho → packetSrc (bufferPacket r.seen) ∈ table) ∧ Answerable host rs (host.hear r table)

/-! ## One reception -/

section Step

variable {host : ArpHost} {table : ArpTable} {w : World}

/-- The buffer after the read. -/
theorem deliver_withRx_mem (w : World) (buffer : Nat → UInt8) (frame : Frame) :
    ((w.withRx buffer).deliver (some frame)).mem .rx = seenBuffer buffer frame := by
  unfold deliver
  rw [write_mem_same (o := .rx) _ _ _ rfl]
  simp [World.withRx, rxBuffer, seenBuffer]

/-- The world that the handlers of a reception start from, in the terms of its buffer. -/
theorem Reception.delivered (r : Reception) (w : World) :
    let v := (w.withRx r.buffer).deliver (some r.frame)
    ntohs (v.u16 (rxBuffer + 12)) = bufferType r.seen ∧
      v.totalLength (rxBuffer + 14) = bufferLength r.seen ∧
      v.packet (rxBuffer + 14) = bufferPacket r.seen ∧
      v.arpMessage (rxBuffer + 14) = .ofBytes r.seen 14 := by
  have hmem : ((w.withRx r.buffer).deliver (some r.frame)).mem .rx = r.seen :=
    deliver_withRx_mem w r.buffer r.frame
  have hswap : ∀ a b, ntohs (le16 a b) = le16 b a := swap16_le16
  refine ⟨?_, ?_, ?_, ?_⟩
  · simp only [u16, u8, hswap, ← hmem]
    rfl
  · simp only [totalLength, u16, u8, hswap, bufferLength, ← hmem]
    rfl
  · simp only [packet, totalLength, u16, u8, hswap, bufferPacket, bufferLength, ← hmem]
    rfl
  · simp only [arpMessage, ← hmem]
    rfl

/-- An echo request from an address that is not in the table ends the process. -/
theorem Reception.run_exits (r : Reception) (h : w.Tracks host table) (hecho : r.IsEcho)
    (hsrc : packetSrc (bufferPacket r.seen) ∉ table) :
    ∃ w', r.run w = (.error (.exit 1), w') ∧
      w'.wire = w.wire ++ [host.request (packetSrc (bufferPacket r.seen))] := by
  obtain ⟨htype, hlen, hpacket, -⟩ := r.delivered w
  obtain ⟨hr, rfl, hv, hlook⟩ := h
  obtain ⟨w', hrun, -, hserves⟩ := processIoBody_miss (w := w.withRx r.buffer) hr hv
    (htype.trans hecho.1) (by rw [hlen]; exact (r.inBounds hecho.1).1)
    (by rw [hpacket]; exact hecho.2)
    (by rw [hpacket]; exact (hlook _).trans (Finmap.lookup_eq_none.mpr hsrc))
  rw [hpacket] at hserves
  exact ⟨w', hrun, hserves.wire⟩

/-- Any other reception returns, and the cache follows the table. -/
theorem Reception.run_returns (r : Reception) (h : w.Tracks host table)
    (hans : r.IsEcho → packetSrc (bufferPacket r.seen) ∈ table) :
    ∃ w', r.run w = (.ok (), w') ∧ w'.Tracks host (host.hear r table) := by
  obtain ⟨htype, hlen, hpacket, hmsg⟩ := r.delivered w
  obtain ⟨hr, rfl, hv, hlook⟩ := h
  by_cases harp : bufferType r.seen = ETH_P_ARP
  · obtain ⟨cache', hm, hv', hlook'⟩ := hv.merge hlook w.net.host (.ofBytes r.seen 14)
    rw [← hmsg] at hm
    obtain ⟨w', hrun, rfl, hserves⟩ :=
      processIoBody_arp (w := w.withRx r.buffer) hr (htype.trans harp) hm
    refine ⟨w', hrun, hserves.ready, hserves.host_eq, hv', ?_⟩
    unfold ArpHost.hear
    rw [if_pos harp]
    exact hlook'
  · unfold ArpHost.hear
    rw [if_neg harp]
    by_cases hip : bufferType r.seen = ETH_P_IP
    · have hL : 20 ≤ bufferLength r.seen := (r.inBounds hip).1
      by_cases hecho : IsEchoRequest (bufferPacket r.seen)
      · obtain ⟨mac, hmac⟩ := Finmap.mem_iff.mp (hans ⟨hip, hecho⟩)
        obtain ⟨w', hrun, hcache, hserves⟩ := processIoBody_hit (w := w.withRx r.buffer) hr hv
          (htype.trans hip) (by rwa [hlen]) (by rwa [hpacket])
          (by rw [hpacket]; exact (hlook _).trans hmac)
        exact ⟨w', hrun, hserves.ready, hserves.host_eq, by rw [hcache]; exact hv,
          by rw [hcache]; exact hlook⟩
      · obtain ⟨w', hrun, hs⟩ := processIoBody_silent (w := w.withRx r.buffer) hr
          (htype.trans hip) (by rwa [hlen]) (by rwa [hpacket])
        exact ⟨w', hrun, hs.tracks ⟨hr, rfl, hv, hlook⟩⟩
    · obtain ⟨w', hrun, hs⟩ := processIoBody_other (w := w.withRx r.buffer) hr
        (by rwa [htype]) (by rwa [htype])
      exact ⟨w', hrun, hs.tracks ⟨hr, rfl, hv, hlook⟩⟩

end Step

/-! ## Runs -/

/-- The outcome of a run from a state that tracks `table`. -/
theorem receiveAll_spec {host : ArpHost} (rs : List Reception) {table : ArpTable} {w : World}
    (h : w.Tracks host table) :
    (Answerable host rs table → (receiveAll rs w).1 = .ok ()) ∧
      (¬ Answerable host rs table → (receiveAll rs w).1 = .error (.exit 1)) := by
  induction rs generalizing table w with
  | nil => exact ⟨fun _ => rfl, fun h => absurd trivial h⟩
  | cons r rs ih =>
    have hrun : receiveAll (r :: rs) = r.run >>= fun _ => receiveAll rs := rfl
    by_cases hans : r.IsEcho → packetSrc (bufferPacket r.seen) ∈ table
    · obtain ⟨w', hr, htracks⟩ := r.run_returns h hans
      obtain ⟨hok, hexit⟩ := ih htracks
      rw [hrun, bind_ok hr]
      exact ⟨fun hall => hok hall.2, fun hall => hexit fun hrest => hall ⟨hans, hrest⟩⟩
    · obtain ⟨hecho, hsrc⟩ := Classical.not_imp.mp hans
      obtain ⟨w', hr, -⟩ := r.run_exits h hecho hsrc
      rw [hrun, bind_error hr]
      exact ⟨fun hall => absurd hall.1 hans, fun _ => rfl⟩

/-- **When received frames stop the stack.** From `arp_init`, a run of receptions returns if and
only if each valid echo request comes from an address that the ARP traffic before it put into the
table. Otherwise it ends in the `exit(1)` of `ip_send_packet`: no `abort` and no failing `assert` is
reached. -/
theorem receiveAll_iff (mem : Obj → Nat → UInt8) (host : ArpHost) (rs : List Reception) :
    ∃ cache, arpInit = some cache ∧
      ((receiveAll rs (World.boot mem host cache)).1 = .ok () ↔ Answerable host rs ∅) ∧
      ((receiveAll rs (World.boot mem host cache)).1 = .error (.exit 1) ↔
        ¬ Answerable host rs ∅) := by
  obtain ⟨cache, hinit, h⟩ := boot_tracks mem host
  obtain ⟨hok, hexit⟩ := receiveAll_spec rs h
  refine ⟨cache, hinit, ⟨fun hrun => ?_, hok⟩, ⟨fun hrun hans => ?_, hexit⟩⟩
  · by_contra hans
    rw [hexit hans] at hrun
    cases hrun
  · rw [hok hans] at hrun
    cases hrun

/-- `sampleEcho` in a fresh stack: its sender was never heard. -/
theorem sampleEcho_exits :
    ∃ cache, arpInit = some cache ∧ ∃ r : Reception, r.frame = sampleEcho ∧
      (receiveAll [r] (World.boot (fun _ _ => 0) ⟨0x0100000a, #v[2, 0, 0, 0, 0, 1]⟩ cache)).1 =
        .error (.exit 1) := by
  obtain ⟨cache, hinit, h⟩ := boot_tracks (fun _ _ => 0) ⟨0x0100000a, #v[2, 0, 0, 0, 0, 1]⟩
  have hseen : bufferPacket (seenBuffer (fun _ => 0) sampleEcho) = framePacket sampleEcho := by decide
  let r : Reception := ⟨fun _ => 0, sampleEcho, by decide⟩
  have hecho : r.IsEcho := by
    refine ⟨by decide, ?_⟩
    show IsEchoRequest (bufferPacket (seenBuffer (fun _ => 0) sampleEcho))
    rw [hseen]
    exact isEchoRequest_sampleEcho
  refine ⟨cache, hinit, r, rfl, (receiveAll_spec [r] h).2 fun hans => ?_⟩
  exact Finmap.notMem_empty (hans.1 hecho)

end TcpIp
