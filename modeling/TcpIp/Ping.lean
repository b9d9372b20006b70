import TcpIp.Protocols.ArpNetwork
import TcpIp.Protocols.ArpResolution
import TcpIp.Protocols.Echo
import TcpIp.Protocols.IpRoundTrip

/-!
# Ping between two instances

A caller of one instance sends an ICMP echo request with `ip_send`; another instance gets the frame
and answers; the first one gets the answer. Each side looks the other one up in its ARP cache, and a
lookup that fails ends the process.

* `EchoMessage`: an echo request that fits the receive buffer.
* `framePacket_ethFrame`: a frame carries the packet that was put into it.
* `ping_outcome`: what happens, for any two caches.
* `ping_resolved`: after one exchange of `arp_resolve_ipv4` both sides know each other, and the ping
  succeeds.
-/

namespace TcpIp

open Bytes Prog World

/-- An ICMP echo request with a valid checksum. A frame with it fits the receive buffer. -/
structure EchoMessage where
  bytes : List UInt8
  long : 8 ≤ bytes.length
  fits : 34 + bytes.length ≤ BUFLEN
  type : bytes.getD 0 0 = ICMP_ECHO_REQUEST
  checksum : internetChecksum bytes = 0

/-! ## Frames and their packets -/

/-- The total length field of a packet is its length. -/
def WholePacket (packet : List UInt8) : Prop :=
  (le16 (packet.getD 3 0) (packet.getD 2 0)).toNat = packet.length

section Frames

variable {dstMac srcMac : Mac} {packet : List UInt8}

theorem frameLength_ethFrame (dstMac srcMac : Mac) (h : WholePacket packet) :
    frameLength (ethFrame dstMac srcMac ETH_P_IP packet) = packet.length := by
  have hget : ∀ i, (ethFrame dstMac srcMac ETH_P_IP packet).getD (14 + i) 0 = packet.getD i 0 := by
    intro i
    rw [ethFrame, List.getD_append_right _ _ _ _ (by simp)]
    congr 1
    simp
  rw [frameLength, hget 3, hget 2]
  exact h

theorem framePacket_ethFrame (h : WholePacket packet) :
    framePacket (ethFrame dstMac srcMac ETH_P_IP packet) = packet := by
  have hhead : (dstMac.toList ++ srcMac.toList ++ bytes16 (swap16 ETH_P_IP)).length = 14 := by simp
  rw [framePacket, frameLength_ethFrame _ _ h, ethFrame, List.drop_left' hhead, List.take_length]

/-- A round that finds a packet other than an echo request emits nothing. -/
theorem World.Up.round_silent {host : ArpHost} {w : World} (hw : w.Up host)
    (buffer : Nat → UInt8) (hwhole : WholePacket packet) (hlong : 20 ≤ packet.length)
    (hfits : 14 + packet.length ≤ BUFLEN) (h : ¬ IsEchoRequest packet) :
    ∃ w', processIoBody (some (ethFrame dstMac srcMac ETH_P_IP packet)) (w.withRx buffer) =
        (.ok (), w') ∧ w'.wire = w.wire ∧ w'.cache = w.cache := by
  have hlen := frameLength_ethFrame dstMac srcMac hwhole
  obtain ⟨htype, htotal, hpacket⟩ := deliver_ip (w.withRx buffer)
    (show (ethFrame dstMac srcMac ETH_P_IP packet).length ≤ BUFLEN by rwa [length_ethFrame])
    (by rw [hlen, length_ethFrame]; omega) (by rwa [hlen])
  rw [framePacket_ethFrame hwhole] at hpacket
  obtain ⟨w', hrun, hs⟩ := processIoBody_silent (w := w.withRx buffer) hw.ready
    (htype.trans (etherType_ethFrame _ _ _ _)) (by rwa [htotal, hlen]) (by rwa [hpacket])
  exact ⟨w', hrun, hs.wire, hs.cache⟩

end Frames

/-! ## The request -/

section Request

variable {ip dst : UInt32} (msg : EchoMessage)

theorem sentPacket_whole {payload : List UInt8} (h : payload.length ≤ 65515) (protocol : UInt32) :
    WholePacket (sentPacket ip dst payload protocol) := by
  have hreal : (UInt16.ofNat (20 + payload.length)).toNat = 20 + payload.length := by
    rw [UInt16.toNat_ofNat', Nat.mod_eq_of_lt (by omega)]
  have hfield : le16 ((sentPacket ip dst payload protocol).getD 3 0)
      ((sentPacket ip dst payload protocol).getD 2 0) = UInt16.ofNat (20 + payload.length) := by
    show le16 (byte16 (htons (UInt16.ofNat (20 + payload.length))) 1)
      (byte16 (htons (UInt16.ofNat (20 + payload.length))) 0) = _
    rw [← swap16_le16, le16_bytes, htons, swap16_swap16]
  rw [WholePacket, length_sentPacket, hfield, hreal]

theorem sentPacket_isEchoRequest : IsEchoRequest (sentPacket ip dst msg.bytes 1) := by
  have hheader := length_sealHeader (headerStart msg.bytes.length 1) (bytes32 ip ++ bytes32 (htonl dst))
  rw [length_headerStart, List.length_append, length_bytes32, length_bytes32] at hheader
  refine ⟨?_, rfl, ?_, ?_⟩
  · rw [sentPacket, List.take_left' hheader]
    exact sealHeader_checksum (length_headerStart _ _) (by simp)
  · rw [sentPacket, List.drop_left' hheader]
    exact msg.checksum
  · rw [sentPacket, List.getD_append_right _ _ _ _ (by omega), hheader]
    exact msg.type

theorem packetSrc_sentPacket (payload : List UInt8) (protocol : UInt32) :
    packetSrc (sentPacket ip dst payload protocol) = ip := le32_bytes ip

end Request

/-! ## The exchange -/

/-- The packet that carries the request. -/
def ArpHost.ping (host : ArpHost) (peer : UInt32) (msg : EchoMessage) : List UInt8 :=
  sentPacket host.ip (ntohl peer) msg.bytes 1

/-- The packet that answers it: from the peer to the host, with the identifier, the sequence number
and the data of the request; both checksums verify. -/
structure AnswersPing (host peer : ArpHost) (msg : EchoMessage) (answer : List UInt8) : Prop where
  length : answer.length = 20 + msg.bytes.length
  src : (answer.drop 12).take 4 = bytes32 peer.ip
  dst : (answer.drop 16).take 4 = bytes32 host.ip
  header : internetChecksum (answer.take 20) = 0
  type : answer.getD 20 0 = ICMP_ECHO_REPLY
  icmp : internetChecksum (answer.drop 20) = 0
  data : answer.drop 24 = msg.bytes.drop 4

section Exchange

variable {host peer : ArpHost} {w : World} (msg : EchoMessage)

theorem ping_whole (host : ArpHost) (ip : UInt32) : WholePacket (host.ping ip msg) := by
  have hfits := msg.fits
  simp only [BUFLEN] at hfits
  exact sentPacket_whole (by omega) 1

theorem length_ping (host : ArpHost) (ip : UInt32) : (host.ping ip msg).length = 20 + msg.bytes.length :=
  length_sentPacket _ _ _ _

/-- The packet that the handlers make of the request. -/
theorem echoReply_answersPing (host peer : ArpHost) :
    AnswersPing host peer msg (echoReply peer.ip (host.ping peer.ip msg)) ∧
      WholePacket (echoReply peer.ip (host.ping peer.ip msg)) := by
  have hlong := msg.long
  have hfits := msg.fits
  simp only [BUFLEN] at hfits
  have hlen := length_ping msg host peer.ip
  have hreply := echoReply_isEchoReplyTo peer.ip
    (show 28 ≤ (host.ping peer.ip msg).length by omega) (by omega)
  have hwhole := ping_whole msg host peer.ip
  generalize hanswer : echoReply peer.ip (host.ping peer.ip msg) = answer at hreply
  have hpre := length_headerStart msg.bytes.length 1
  refine ⟨⟨hreply.length.trans hlen, hreply.src, ?_, hreply.header, hreply.type, hreply.icmp, ?_⟩, ?_⟩
  · rw [hreply.dst, ArpHost.ping, sentPacket, drop_sealHeader hpre,
      List.take_left' (length_bytes32 _)]
  · have hheader := length_sealHeader (headerStart msg.bytes.length 1)
      (bytes32 host.ip ++ bytes32 (htonl (ntohl peer.ip)))
    rw [hpre, List.length_append, length_bytes32, length_bytes32] at hheader
    rw [hreply.data, show 24 = 20 + 4 from rfl, ← List.drop_drop, ArpHost.ping, sentPacket,
      List.drop_left' hheader]
  · -- The total length is one of the first 10 bytes.
    have hget : ∀ i, i < 10 → answer.getD i 0 = (host.ping peer.ip msg).getD i 0 := by
      intro i hi
      have htake := congrArg (fun l => l.getD i 0) hreply.start
      simpa [List.getD_eq_getElem?_getD, List.getElem?_take, hi] using htake
    rw [WholePacket, hget 3 (by decide), hget 2 (by decide), hreply.length]
    exact hwhole

/-- A ping from a host that does not know its peer. -/
theorem World.Up.ping_unknown (hw : w.Up host) (hlook : w.cache.lookup peer.ip = none) :
    ∃ w', ipSend (ntohl peer.ip) msg.bytes 1 w = (.error (.exit 1), w') ∧
      w'.wire = w.wire ++ [host.request peer.ip] := by
  obtain ⟨hr, rfl, hv⟩ := hw
  obtain ⟨q, W, h, hsend⟩ := ipSend_packet w (ntohl peer.ip) msg.bytes 1
  have hdst : htonl (W.u32 (q + 16)) = peer.ip := by rw [h.dst, htonl_ntohl]
  obtain ⟨w', hrun, -, hserves⟩ := ipSendPacket_miss (w := W) (q := q) (by rwa [h.statics.net])
    (by rwa [h.statics.cache]) (by rwa [hdst, h.statics.cache])
  refine ⟨w', hsend.trans hrun, ?_⟩
  rw [hserves.wire, h.statics.wire, hdst, h.statics.net]

/-- A ping from a host that knows its peer. -/
theorem World.Up.ping_known (hw : w.Up host) {mac : Mac}
    (hlook : w.cache.lookup peer.ip = some mac) :
    ∃ w', ipSend (ntohl peer.ip) msg.bytes 1 w = (.ok (), w') ∧ w'.Up host ∧ w'.cache = w.cache ∧
      w'.wire = w.wire ++ [ethFrame mac host.mac ETH_P_IP (host.ping peer.ip msg)] := by
  have hfits := msg.fits
  simp only [BUFLEN] at hfits
  obtain ⟨hr, rfl, hv⟩ := hw
  obtain ⟨w', hrun, hcache, hserves⟩ := ipSend_spec hr hv
    (show w.cache.lookup (htonl (ntohl peer.ip)) = some mac by rwa [htonl_ntohl])
    (show msg.bytes.length ≤ 65515 by omega) 1
  exact ⟨w', hrun, ⟨hserves.ready, hserves.host_eq, by rw [hcache]; exact hv⟩, hcache, hserves.wire⟩

/-- What a round finds of the request. -/
theorem deliver_ping (w : World) (buffer : Nat → UInt8) (mac : Mac) (host peer : ArpHost) :
    let v := (w.withRx buffer).deliver
      (some (ethFrame mac host.mac ETH_P_IP (host.ping peer.ip msg)))
    ntohs (v.u16 (rxBuffer + 12)) = ETH_P_IP ∧ 20 ≤ v.totalLength (rxBuffer + 14) ∧
      IsEchoRequest (v.packet (rxBuffer + 14)) ∧ packetSrc (v.packet (rxBuffer + 14)) = host.ip ∧
      v.packet (rxBuffer + 14) = host.ping peer.ip msg := by
  have hfits := msg.fits
  have hwhole := ping_whole msg host peer.ip
  have hlen := length_ping msg host peer.ip
  have hframe := frameLength_ethFrame mac host.mac hwhole
  obtain ⟨htype, htotal, hpacket⟩ := deliver_ip (w.withRx buffer)
    (show (ethFrame mac host.mac ETH_P_IP (host.ping peer.ip msg)).length ≤ BUFLEN by
      rw [length_ethFrame]; omega)
    (by rw [hframe, length_ethFrame]; omega) (by omega)
  rw [framePacket_ethFrame hwhole] at hpacket
  refine ⟨htype.trans (etherType_ethFrame _ _ _ _), by omega, ?_, ?_, hpacket⟩
  · rw [hpacket]
    exact sentPacket_isEchoRequest msg
  · rw [hpacket]
    exact packetSrc_sentPacket _ _

/-- The request at a peer that does not know the host. -/
theorem World.Up.hear_ping_unknown (hw : w.Up peer) (buffer : Nat → UInt8) (mac : Mac)
    (hlook : w.cache.lookup host.ip = none) :
    ∃ w', processIoBody (some (ethFrame mac host.mac ETH_P_IP (host.ping peer.ip msg)))
        (w.withRx buffer) = (.error (.exit 1), w') ∧
      w'.wire = w.wire ++ [peer.request host.ip] := by
  obtain ⟨htype, htotal, hecho, hsrc, -⟩ := deliver_ping msg w buffer mac host peer
  obtain ⟨hr, rfl, hv⟩ := hw
  obtain ⟨w', hrun, -, hserves⟩ := processIoBody_miss (w := w.withRx buffer) hr hv htype htotal
    hecho (by rwa [hsrc])
  rw [hsrc] at hserves
  exact ⟨w', hrun, hserves.wire⟩

/-- The request at a peer that knows the host. -/
theorem World.Up.hear_ping_known (hw : w.Up peer) (buffer : Nat → UInt8) (mac : Mac) {mac' : Mac}
    (hlook : w.cache.lookup host.ip = some mac') :
    ∃ w', processIoBody (some (ethFrame mac host.mac ETH_P_IP (host.ping peer.ip msg)))
        (w.withRx buffer) = (.ok (), w') ∧ w'.cache = w.cache ∧
      w'.wire = w.wire ++ [ethFrame mac' peer.mac ETH_P_IP
        (echoReply peer.ip (host.ping peer.ip msg))] := by
  obtain ⟨htype, htotal, hecho, hsrc, hpacket⟩ := deliver_ping msg w buffer mac host peer
  obtain ⟨hr, rfl, hv⟩ := hw
  obtain ⟨w', hrun, hcache, hserves⟩ := processIoBody_hit (w := w.withRx buffer) hr hv htype htotal
    hecho (by rwa [hsrc])
  rw [hpacket] at hserves
  exact ⟨w', hrun, hcache, hserves.wire⟩

/-- The answer is not answered, and changes nothing. -/
theorem World.Up.hear_answer (hw : w.Up host) (buffer : Nat → UInt8) (mac : Mac) (peer : ArpHost) :
    ∃ w', processIoBody (some (ethFrame mac peer.mac ETH_P_IP
        (echoReply peer.ip (host.ping peer.ip msg)))) (w.withRx buffer) = (.ok (), w') ∧
      w'.wire = w.wire ∧ w'.cache = w.cache := by
  have hfits := msg.fits
  obtain ⟨hanswer, hwhole⟩ := echoReply_answersPing msg host peer
  have hlen := hanswer.length
  refine hw.round_silent buffer hwhole (by omega) (by omega) fun hecho => ?_
  have htype := hecho.type.symm.trans hanswer.type
  revert htype
  decide

end Exchange

section Outcome

variable {hostA hostB : ArpHost} {wA wB : World}

/-- **What becomes of a ping** that fits the receive buffer, for any two caches: the sender ends if it
does not know the peer, and the peer ends on the request if it does not know the sender. Otherwise
the peer answers, and the answer changes nothing at the sender. -/
theorem ping_outcome (hA : wA.Reachable hostA) (hB : wB.Reachable hostB) (msg : EchoMessage)
    (bufferA bufferB : Nat → UInt8) :
    (wA.cache.lookup hostB.ip = none → ∃ wA₁,
      ipSend (ntohl hostB.ip) msg.bytes 1 wA = (.error (.exit 1), wA₁) ∧
      wA₁.wire = wA.wire ++ [hostA.request hostB.ip]) ∧
    ∀ macB, wA.cache.lookup hostB.ip = some macB → ∃ wA₁ request,
      ipSend (ntohl hostB.ip) msg.bytes 1 wA = (.ok (), wA₁) ∧ wA₁.wire = wA.wire ++ [request] ∧
      request.take 6 = macB.toList ∧
      (wB.cache.lookup hostA.ip = none → ∃ wB₁,
        processIoBody (some request) (wB.withRx bufferB) = (.error (.exit 1), wB₁) ∧
        wB₁.wire = wB.wire ++ [hostB.request hostA.ip]) ∧
      ∀ macA, wB.cache.lookup hostA.ip = some macA → ∃ wB₁ answer wA₂,
        processIoBody (some request) (wB.withRx bufferB) = (.ok (), wB₁) ∧
        wB₁.wire = wB.wire ++ [ethFrame macA hostB.mac ETH_P_IP answer] ∧
        AnswersPing hostA hostB msg answer ∧
        processIoBody (some (ethFrame macA hostB.mac ETH_P_IP answer)) (wA₁.withRx bufferA) =
          (.ok (), wA₂) ∧
        wA₂.wire = wA₁.wire ∧ wA₂.cache = wA.cache ∧ wB₁.cache = wB.cache := by
  refine ⟨fun hlook => hA.up.ping_unknown msg hlook, fun macB hlook => ?_⟩
  obtain ⟨wA₁, hsend, hupA, hcacheA, hwireA⟩ := hA.up.ping_known msg hlook
  refine ⟨wA₁, _, hsend, hwireA, ?_, fun hlookB => ?_, fun macA hlookB => ?_⟩
  · rw [ethFrame, List.append_assoc, List.append_assoc, List.take_left' macB.length_toList]
  · exact hB.up.hear_ping_unknown msg bufferB macB hlookB
  · obtain ⟨wB₁, hround, hcacheB, hwireB⟩ := hB.up.hear_ping_known msg bufferB macB hlookB
    obtain ⟨wA₂, hlast, hwireA₂, hcacheA₂⟩ := hupA.hear_answer msg bufferA macA hostB
    exact ⟨wB₁, _, wA₂, hround, hwireB, (echoReply_answersPing msg hostA hostB).1, hlast, hwireA₂,
      hcacheA₂.trans hcacheA, hcacheB⟩

/-- Both hosts have heard of each other. -/
theorem ping_outcome_known :
    ∃ (msg : EchoMessage) (wA wB wB₁ : World) (macA : Mac) (answer : List UInt8),
      wA.Reachable (pairHost true) ∧ wB.Reachable (pairHost false) ∧
      msg.bytes = [8, 0, 0x56, 0xfd, 0, 1, 0, 1, 0xa1] ∧
      wB₁.wire = wB.wire ++ [ethFrame macA (pairHost false).mac ETH_P_IP answer] ∧
      AnswersPing (pairHost true) (pairHost false) msg answer := by
  let msg : EchoMessage := ⟨[8, 0, 0x56, 0xfd, 0, 1, 0, 1, 0xa1], by decide, by decide, rfl,
    by decide +kernel⟩
  obtain ⟨wA, hA, hlookA⟩ := exists_learned (pairHost true) (pairHost false)
  obtain ⟨wB, hB, hlookB⟩ := exists_learned (pairHost false) (pairHost true)
  obtain ⟨-, hknown⟩ := ping_outcome hA hB msg (fun _ => 0) fun _ => 0xee
  obtain ⟨_, _, -, -, -, -, hpeer⟩ := hknown _ hlookA
  obtain ⟨wB₁, answer, _, -, hwire, hanswer, -⟩ := hpeer _ hlookB
  exact ⟨msg, wA, wB, wB₁, _, answer, hA, hB, rfl, hwire, hanswer⟩

/-- **Resolve, then ping.** A host that does not know its peer calls `arp_resolve_ipv4`; when the peer
has handled the request, and the host the reply, a ping is answered. Four frames are sent. -/
theorem ping_resolved (hA : wA.Reachable hostA) (hB : wB.Reachable hostB)
    (hmiss : isInArpCache ARP_IPV4 hostB.ip wA.cache = some false) (msg : EchoMessage)
    (buffers : Nat → Nat → UInt8) :
    ∃ wA₁ wA₂ wA₃ wA₄ wB₁ wB₂ request reply ping answer,
      arpResolveIpv4 hostB.ip wA = (.ok none, wA₁) ∧
      processIoBody (some request) (wB.withRx (buffers 0)) = (.ok (), wB₁) ∧
      processIoBody (some reply) (wA₁.withRx (buffers 1)) = (.ok (), wA₂) ∧
      ipSend (ntohl hostB.ip) msg.bytes 1 wA₂ = (.ok (), wA₃) ∧
      processIoBody (some ping) (wB₁.withRx (buffers 2)) = (.ok (), wB₂) ∧
      processIoBody (some (ethFrame hostA.mac hostB.mac ETH_P_IP answer)) (wA₃.withRx (buffers 3)) =
        (.ok (), wA₄) ∧
      AnswersPing hostA hostB msg answer ∧
      wA₄.wire = wA.wire ++ [request, ping] ∧
      wB₂.wire = wB.wire ++ [reply, ethFrame hostA.mac hostB.mac ETH_P_IP answer] := by
  have hlook : wA.cache.lookup hostB.ip = none := by
    rw [hA.up.valid.isIn, Option.some.injEq, Option.isSome_eq_false_iff,
      Option.isNone_iff_eq_none] at hmiss
    exact hmiss
  -- The exchange that teaches each the address of the other.
  obtain ⟨wA₁, hask, hupA₁, -, hwireA₁⟩ := hA.up.ask hlook
  obtain ⟨wB₁, hrequest, hupB₁, hwireB₁, hlookB, -⟩ := hB.up.hear_request (buffers 0) hostA
  obtain ⟨wA₂, hreply, hupA₂, hwireA₂, hlookA, -⟩ := hupA₁.hear_reply (buffers 1) hostB
  -- The ping.
  obtain ⟨wA₃, hsend, hupA₃, -, hwireA₃⟩ := hupA₂.ping_known msg hlookA
  obtain ⟨wB₂, hping, -, hwireB₂⟩ := hupB₁.hear_ping_known msg (buffers 2) hostB.mac hlookB
  obtain ⟨wA₄, hanswer, hwireA₄, -⟩ := hupA₃.hear_answer msg (buffers 3) hostA.mac hostB
  refine ⟨wA₁, wA₂, wA₃, wA₄, wB₁, wB₂, _, _, _, _, hask, hrequest, hreply, hsend, hping, hanswer,
    (echoReply_answersPing msg hostA hostB).1, ?_, ?_⟩
  · rw [hwireA₄, hwireA₃, hwireA₂, hwireA₁, List.append_assoc]
    rfl
  · rw [hwireB₂, hwireB₁, List.append_assoc]
    rfl

/-- Two hosts that have just booted. -/
theorem ping_resolved_boot :
    ∃ (wA wB : World) (msg : EchoMessage) (wA₄ wB₂ : World) (request reply ping : Frame)
      (answer : List UInt8), wA.Reachable (pairHost true) ∧ wB.Reachable (pairHost false) ∧
      AnswersPing (pairHost true) (pairHost false) msg answer ∧
      wA₄.wire = wA.wire ++ [request, ping] ∧
      wB₂.wire = wB.wire ++
        [reply, ethFrame (pairHost true).mac (pairHost false).mac ETH_P_IP answer] := by
  obtain ⟨cache, hinit, hv, hempty⟩ := arpInit_spec
  have hA : World.Reachable (pairHost true) _ := .boot (fun _ _ => 0) hinit
  have hB : World.Reachable (pairHost false) _ := .boot (fun _ _ => 0) hinit
  have hmiss : isInArpCache ARP_IPV4 (pairHost false).ip cache = some false := by
    rw [hv.isIn, hempty]
    rfl
  let msg : EchoMessage := ⟨[8, 0, 0x56, 0xfd, 0, 1, 0, 1, 0xa1], by decide, by decide, rfl,
    by decide +kernel⟩
  obtain ⟨_, _, _, wA₄, _, wB₂, request, reply, ping, answer, -, -, -, -, -, -, hanswer, hwireA,
    hwireB⟩ := ping_resolved hA hB hmiss msg fun _ _ => 0
  exact ⟨_, _, msg, wA₄, wB₂, request, reply, ping, answer, hA, hB, hanswer, hwireA, hwireB⟩

end Outcome

end TcpIp
