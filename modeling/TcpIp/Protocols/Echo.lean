import TcpIp.Run

/-!
# ICMP echo, end to end

A frame that carries an echo request, received in any reachable state, gives exactly one frame: the
reply, to the MAC address that is cached for the sender. `IsEchoReplyTo` says what a reply is;
`echoReply_isEchoReplyTo` that the packet the handlers make is one.
-/

namespace TcpIp

open Bytes Prog World

/-- The total length field of the IPv4 packet in a frame. -/
def frameLength (frame : Frame) : Nat := (le16 (frame.getD 17 0) (frame.getD 16 0)).toNat

/-- The IPv4 packet in a frame. -/
def framePacket (frame : Frame) : List UInt8 := (frame.drop 14).take (frameLength frame)

/-- What the buffer holds of a frame. -/
theorem deliver_bytes (w : World) {frame : Frame} {k n : Nat} (h : k + n ≤ frame.length)
    (hn : frame.length ≤ BUFLEN) :
    (w.deliver (some frame)).bytes (rxBuffer + k) n = (frame.drop k).take n := by
  apply List.ext_getElem
  · simp [bytes]; omega
  · intro i h1 h2
    have hi : i < n := by simpa [bytes] using h1
    have hmem := deliver_mem w (show k + i < frame.length by omega) (by omega)
    rw [List.getD_eq_getElem _ _ (by omega)] at hmem
    rw [List.getElem_take, List.getElem_drop, ← hmem]
    simp [bytes, getElem_readN, rxBuffer]

/-- The IPv4 fields of a delivered frame. -/
theorem deliver_ip (w : World) {frame : Frame} (hn : frame.length ≤ BUFLEN)
    (hin : frameLength frame + 14 ≤ frame.length) (h20 : 20 ≤ frameLength frame) :
    ntohs ((w.deliver (some frame)).u16 (rxBuffer + 12)) = etherType frame ∧
      (w.deliver (some frame)).totalLength (rxBuffer + 14) = frameLength frame ∧
      (w.deliver (some frame)).packet (rxBuffer + 14) = framePacket frame := by
  have hu8 : ∀ i, i < 34 → (w.deliver (some frame)).u8 (rxBuffer + i) = frame.getD i 0 := by
    intro i hi
    rw [← deliver_mem w (show i < frame.length by omega) (by omega)]
    simp [u8, rxBuffer]
  have hlen : (w.deliver (some frame)).totalLength (rxBuffer + 14) = frameLength frame := by
    simp only [totalLength, u16, Ptr.add_add, Nat.reduceAdd, hu8 16 (by decide),
      hu8 17 (by decide), ntohs, swap16_le16]
    rfl
  refine ⟨?_, hlen, ?_⟩
  · simp only [u16, Ptr.add_add, Nat.reduceAdd, hu8 12 (by decide), hu8 13 (by decide), ntohs,
      swap16_le16]
    rfl
  · unfold packet
    rw [hlen, deliver_bytes w (by omega) hn]
    rfl

/-- `reply` answers `request`: the header but for the addresses and the checksum, our address and
the sender's, type 0, and the rest of the message; both checksums verify. -/
structure IsEchoReplyTo (ip : UInt32) (request reply : List UInt8) : Prop where
  length : reply.length = request.length
  start : reply.take 10 = request.take 10
  src : (reply.drop 12).take 4 = bytes32 ip
  dst : (reply.drop 16).take 4 = (request.drop 12).take 4
  header : internetChecksum (reply.take 20) = 0
  type : reply.getD 20 0 = ICMP_ECHO_REPLY
  code : reply.getD 21 0 = request.getD 21 0
  icmp : internetChecksum (reply.drop 20) = 0
  data : reply.drop 24 = request.drop 24

/-- The reply to a message with a complete ICMP header. -/
theorem icmpReply_eq (t c x y : UInt8) (data : List UInt8) :
    icmpReply (t :: c :: x :: y :: data) =
      [0, c] ++ (bytes16 (internetChecksum ([0, c] ++ ([0, 0] ++ data))) ++ data) := by
  have hzero : overlay (overlay (t :: c :: x :: y :: data) 0 [ICMP_ECHO_REPLY]) 2 (bytes16 0) =
      [0, c, 0, 0] ++ data := by
    show overlay (overlay ([t, c, x, y] ++ data) 0 [ICMP_ECHO_REPLY]) 2 (bytes16 0) = _
    rw [overlay_append (by simp), overlay_append (by simp)]
    rfl
  unfold icmpReply
  rw [hzero, overlay_append (by simp)]
  rfl

/-- The addresses of a packet with a sealed header, and what follows them. -/
theorem drop_sealHeader {pre a b rest : List UInt8} (hpre : pre.length = 10) :
    (sealHeader pre (a ++ b) ++ rest).drop 12 = a ++ (b ++ rest) := by
  unfold sealHeader
  rw [← List.append_assoc pre, List.append_assoc (pre ++ _), List.append_assoc a]
  exact List.drop_left' (by rw [List.length_append, hpre, length_bytes16])

/-- The packet that the handlers make of an echo request is a reply to it. -/
theorem echoReply_isEchoReplyTo (ip : UInt32) {request : List UInt8} (h : 28 ≤ request.length)
    (hlt : request.length ≤ 65535) : IsEchoReplyTo ip request (echoReply ip request) := by
  have hpre : (request.take 10).length = 10 := by rw [List.length_take]; omega
  have hdst : ((request.drop 12).take 4).length = 4 := by
    rw [List.length_take, List.length_drop]; omega
  obtain ⟨t, c, x, y, data, hicmp⟩ : ∃ t c x y data, request.drop 20 = t :: c :: x :: y :: data := by
    have hlen : 4 ≤ (request.drop 20).length := by rw [List.length_drop]; omega
    match request.drop 20, hlen with
    | t :: c :: x :: y :: data, _ => exact ⟨t, c, x, y, data, rfl⟩
  have hdata : request.drop 24 = data := by
    rw [show 24 = 20 + 4 from rfl, ← List.drop_drop, hicmp]
    rfl
  have hcode : request.getD 21 0 = c := by
    rw [show 21 = 20 + 1 from rfl, List.getD_eq_getElem?_getD, ← List.getElem?_drop, hicmp]
    rfl
  have hdlen : data.length + 24 = request.length := by
    rw [← hdata, List.length_drop]; omega
  have hreply : echoReply ip request = sealHeader (request.take 10)
      (bytes32 ip ++ (request.drop 12).take 4) ++ ([0, c] ++
        (bytes16 (internetChecksum ([0, c] ++ ([0, 0] ++ data))) ++ data)) := by
    unfold echoReply
    rw [hicmp, icmpReply_eq]
  have hheader := length_sealHeader (request.take 10) (bytes32 ip ++ (request.drop 12).take 4)
  rw [hpre, List.length_append, hdst, length_bytes32] at hheader
  rw [hreply]
  constructor
  · simp only [List.length_append, List.length_cons, List.length_nil, length_bytes16, hheader]
    omega
  · unfold sealHeader
    rw [List.append_assoc, List.take_left' hpre]
  · rw [drop_sealHeader hpre, List.take_left' (length_bytes32 _)]
  · rw [show 16 = 12 + 4 from rfl, ← List.drop_drop, drop_sealHeader hpre,
      List.drop_left' (length_bytes32 _), List.take_left' hdst]
  · rw [List.take_left' (by omega)]
    exact sealHeader_checksum hpre (by simp [hdst])
  · rw [List.getD_append_right _ _ _ _ (by omega), hheader]
    rfl
  · rw [List.getD_append_right _ _ _ _ (by omega), hheader, hcode]
    rfl
  · rw [List.drop_left' (by omega)]
    exact internetChecksum_patch (by simp) (by simp; omega)
  · rw [show 24 = 20 + 4 from rfl, ← List.drop_drop, List.drop_left' (by omega), hdata,
      ← List.append_assoc, List.drop_left' (by simp)]

/-- A received frame with an echo request inside the received bytes. The version and the header
length of the packet are not looked at. -/
structure IsEchoFrame (frame : Frame) : Prop where
  fits : frame.length ≤ BUFLEN
  type : etherType frame = ETH_P_IP
  long : 28 ≤ frameLength frame
  inside : frameLength frame + 14 ≤ frame.length
  request : IsEchoRequest (framePacket frame)

/-- **Echo, end to end.** A round with an echo request from a cached address sends exactly one
frame, the reply, and leaves the cache as it was. -/
theorem echo_end_to_end {host : ArpHost} {w : World} (hw : w.Reachable host)
    (buffer : Nat → UInt8) {frame : Frame} (hf : IsEchoFrame frame) {mac : Mac}
    (hlook : w.cache.lookup (packetSrc (framePacket frame)) = some mac) :
    ∃ w' reply, processIoBody (some frame) (w.withRx buffer) = (.ok (), w') ∧
      w'.wire = w.wire ++ [ethFrame mac host.mac ETH_P_IP reply] ∧
      (ethFrame mac host.mac ETH_P_IP reply).length = 14 + frameLength frame ∧
      IsEchoReplyTo host.ip (framePacket frame) reply ∧ w'.cache = w.cache := by
  obtain ⟨hr, rfl, hv⟩ := hw.up
  have hlong := hf.long
  have hinside := hf.inside
  have hfits := hf.fits
  obtain ⟨htype, hlen, hpacket⟩ := deliver_ip (w.withRx buffer) hfits hinside (by omega)
  obtain ⟨w', hrun, hcache, hserves⟩ := processIoBody_hit (w := w.withRx buffer) hr hv
    (htype.trans hf.type) (by rw [hlen]; omega) (by rw [hpacket]; exact hf.request)
    (by rw [hpacket]; exact hlook)
  have hplen : (framePacket frame).length = frameLength frame := by
    unfold framePacket
    rw [List.length_take, List.length_drop]
    omega
  have hreply := echoReply_isEchoReplyTo w.net.ip (show 28 ≤ (framePacket frame).length by omega)
    (by simp only [BUFLEN] at hfits; omega)
  rw [hpacket] at hserves
  refine ⟨w', echoReply w.net.ip (framePacket frame), hrun, hserves.wire, ?_, hreply, hcache⟩
  rw [length_ethFrame, hreply.length, hplen]

/-- An echo request with an odd number of data bytes. -/
def sampleEcho : Frame :=
  [2, 0, 0, 0, 0, 1, 2, 0, 0, 0, 0, 2, 0x08, 0x00,
   0x45, 0, 0, 29, 0, 1, 0, 0, 64, 1, 0x66, 0xdd, 10, 0, 0, 2, 10, 0, 0, 1,
   8, 0, 0x56, 0xfd, 0, 1, 0, 1, 0xa1]

theorem isEchoRequest_sampleEcho : IsEchoRequest (framePacket sampleEcho) := by
  refine ⟨?_, by decide, ?_, by decide⟩
  · decide +kernel
  · decide +kernel

/-- The host of `10.0.0.1` answers `sampleEcho` once it has heard from `10.0.0.2`. -/
theorem echo_end_to_end_sample :
    IsEchoFrame sampleEcho ∧ ∃ (host : ArpHost) (w w' : World) (mac : Mac) (reply : List UInt8),
      w.Reachable host ∧ w.cache.lookup (packetSrc (framePacket sampleEcho)) = some mac ∧
        processIoBody (some sampleEcho) (w.withRx fun _ => 0xee) = (.ok (), w') ∧
        w'.wire = w.wire ++ [ethFrame mac host.mac ETH_P_IP reply] ∧
        IsEchoReplyTo host.ip (framePacket sampleEcho) reply := by
  have hf : IsEchoFrame sampleEcho :=
    ⟨by decide, by decide, by decide, by decide, isEchoRequest_sampleEcho⟩
  refine ⟨hf, ⟨0x0100000a, #v[2, 0, 0, 0, 0, 1]⟩, ?_⟩
  obtain ⟨w, hw, hlook⟩ := exists_learned ⟨0x0100000a, #v[2, 0, 0, 0, 0, 1]⟩
    ⟨packetSrc (framePacket sampleEcho), #v[2, 0, 0, 0, 0, 2]⟩
  obtain ⟨w', reply, hrun, hwire, -, hreply, -⟩ := echo_end_to_end hw (fun _ => 0xee) hf hlook
  exact ⟨w, w', _, reply, hw, hlook, hrun, hwire, hreply⟩

end TcpIp
