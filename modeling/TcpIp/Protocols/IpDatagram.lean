import TcpIp.Protocols.TcpCheck

/-!
# Which IPv4 datagrams reach their handler

RFC 791 lets a header have up to ten words of options: the length of the header is a field of it.
`ip_receive` takes every header for 20 bytes, in the checksum and in the place and the length of the
payload. Its number for UDP is 16; the assigned one is 17.

* `Ipv4Datagram`: the datagrams that are well formed by RFC 791 and carry ICMP, TCP or UDP.
* `World.ipHandler`, `World.ipMessage`: the handler that the code calls, and the bytes that the
  handler takes as its message.
* `ip_receive_delivers_iff`: when the two agree.
-/

namespace TcpIp

open Bytes Prog World

/-! ## RFC 791 -/

/-- The fields of a datagram that say where its message is and whose. -/
def datagramVersion (received : List UInt8) : Nat := (received.getD 0 0).toNat / 16

def datagramHeaderLength (received : List UInt8) : Nat := (received.getD 0 0).toNat % 16

def datagramTotalLength (received : List UInt8) : Nat := be16 received 2

def datagramProtocol (received : List UInt8) : UInt8 := received.getD 9 0

/-- The bytes behind the header, up to the total length. -/
def datagramMessage (received : List UInt8) : List UInt8 :=
  (received.take (datagramTotalLength received)).drop (4 * datagramHeaderLength received)

/-- The protocols that the stack has a handler for. -/
inductive IpHandler where
  | icmp
  | tcp
  | udp
deriving Repr, DecidableEq

/-- The assigned protocol numbers. -/
def assignedHandler (protocol : UInt8) : Option IpHandler :=
  if protocol = 1 then some .icmp
  else if protocol = 6 then some .tcp
  else if protocol = 17 then some .udp
  else none

/-- The received bytes begin with a well-formed datagram for one of the three protocols. -/
structure Ipv4Datagram (received : List UInt8) : Prop where
  version : datagramVersion received = 4
  headerLength : 5 ≤ datagramHeaderLength received ∧ datagramHeaderLength received ≤ 15
  totalLength : 4 * datagramHeaderLength received ≤ datagramTotalLength received ∧
    datagramTotalLength received ≤ received.length
  checksum : internetChecksum (received.take (4 * datagramHeaderLength received)) = 0
  protocol : datagramProtocol received = 1 ∨ datagramProtocol received = 6 ∨
    datagramProtocol received = 17

/-! ## The code -/

def IpHandler.run (ipHeader : Ptr) : IpHandler → M Unit
  | .icmp => icmpReceive ipHeader
  | .tcp => do
    let _ ← tcpReceive ipHeader
    pure ()
  | .udp => udpReceive ipHeader

/-- The handler that `ip_receive` calls for the header at `q`. -/
def World.ipHandler (w : World) (q : Ptr) : Option IpHandler :=
  if internetChecksum (w.bytes q sizeofIpHeader) = 0 then
    if w.u8 (q + 9) = PROTOCOL_TCP then some .tcp
    else if w.u8 (q + 9) = PROTOCOL_UDP then some .udp
    else if w.u8 (q + 9) = PROTOCOL_ICMP then some .icmp
    else none
  else none

/-- What a handler takes as its message: `ip_header_get_payload_length` bytes from
`ip_header_payload` on, for the header at `q` in host order. -/
def World.ipMessage (w : World) (q : Ptr) : List UInt8 :=
  w.bytes (q + 20) (payloadLength32 (w.u16 (q + 2)))

section Handler

variable {w : World} {p q : Ptr} {received : List UInt8}

/-- `ip_receive` is its handler, on the header in host order. -/
theorem ipReceive_handler {handler : IpHandler} (h : w.ipHandler (p + 14) = some handler) :
    ipReceive p w = handler.run (p + 14) (w.ipHanded (p + 14)) := by
  rw [ipHandler, Option.ite_none_right_eq_some] at h
  obtain ⟨hheader, hprotocol⟩ := h
  rw [ipReceive_good hheader]
  split at hprotocol
  · obtain rfl := Option.some.inj hprotocol
    rw [if_pos ‹_›, IpHandler.run]
  · rw [if_neg ‹_›]
    split at hprotocol
    · obtain rfl := Option.some.inj hprotocol
      rw [if_pos ‹_›, IpHandler.run]
    · rw [if_neg ‹_›]
      split at hprotocol
      · obtain rfl := Option.some.inj hprotocol
        rw [if_pos ‹_›, IpHandler.run]
      · cases hprotocol

/-- `icmp_receive` verifies the message, and does nothing else with a bad one. -/
theorem icmpReceive_message (hbad : internetChecksum (w.ipMessage q) ≠ 0) :
    icmpReceive q w =
      (.ok (), (w.touch (q + 2) 2).touch (q + 20) (payloadLength32 (w.u16 (q + 2)))) := by
  rw [ipMessage] at hbad
  simp only [icmpReceive, icmpCheck, bind_assoc, loadU16_bind, loadBytes_bind, pure_bind,
    touch_bytes]
  rw [if_neg fun hgood => hbad (beq_iff_eq.mp hgood), pure_apply]

/-- `tcp_header_check` sums the message. -/
theorem ipMessage_segment (h : 20 ≤ (w.u16 (q + 2)).toNat) :
    w.HoldsSegment q (q + 20) (w.u32 (q + 12)) (w.u32 (q + 16)) (w.ipMessage q) := by
  have hlen : (w.ipMessage q).length = (w.u16 (q + 2)).toNat - 20 := by
    rw [ipMessage, payloadLength32_eq h, bytes, length_readN]
  refine ⟨by omega, rfl, rfl, ?_⟩
  rw [hlen, ipMessage, payloadLength32_eq h]

/-- A datagram that is received reaches the handler of its protocol, with its message. -/
def Delivers (w : World) (p : Ptr) (received : List UInt8) : Prop :=
  ∃ handler, assignedHandler (datagramProtocol received) = some handler ∧
    w.ipHandler (p + 14) = some handler ∧
    ipReceive p w = handler.run (p + 14) (w.ipHanded (p + 14)) ∧
    (w.ipHanded (p + 14)).ipMessage (p + 14) = datagramMessage received

theorem datagram_bytes (hmem : w.bytes q received.length = received) {n : Nat}
    (hn : n ≤ received.length) : w.bytes q n = received.take n := by
  conv_rhs => rw [← hmem]
  exact (take_readN _ _ hn).symm

/-- The message of the code: everything behind the first 20 bytes. -/
theorem ipMessage_eq (hmem : w.bytes q received.length = received)
    (htotal : 20 ≤ datagramTotalLength received)
    (hle : datagramTotalLength received ≤ received.length) :
    (w.ipHanded q).ipMessage q = (received.take (datagramTotalLength received)).drop 20 := by
  have hlen : (ntohs (w.u16 (q + 2))).toNat = datagramTotalLength received :=
    ntohs_u16_of_bytes hmem (by omega)
  rw [ipMessage, ipHanded_len, payloadLength32_eq (by omega), ipHanded_payload, hlen,
    ← datagram_bytes hmem hle]
  exact (drop_readN _ _ htotal).symm

/-- The code knows no protocol 17. -/
theorem not_delivers_udp (hmem : w.bytes (p + 14) received.length = received)
    (hlen : 20 ≤ received.length) (hudp : datagramProtocol received = 17) :
    ¬ Delivers w p received := by
  rintro ⟨handler, -, hhandler, -⟩
  rw [ipHandler, u8_of_bytes hmem (by omega), Option.ite_none_right_eq_some, ← datagramProtocol,
    hudp] at hhandler
  have hnone := hhandler.2
  rw [if_neg (by decide), if_neg (by decide), if_neg (by decide)] at hnone
  cases hnone

/-- Options are taken for the start of the message. -/
theorem not_delivers_options (hmem : w.bytes (p + 14) received.length = received)
    (hlong : 5 < datagramHeaderLength received)
    (htotal : 4 * datagramHeaderLength received ≤ datagramTotalLength received)
    (hle : datagramTotalLength received ≤ received.length) : ¬ Delivers w p received := by
  rintro ⟨handler, -, -, -, heq⟩
  rw [ipMessage_eq hmem (by omega) hle] at heq
  have hlen := congrArg List.length heq
  rw [datagramMessage, List.length_drop, List.length_drop, List.length_take] at hlen
  omega

/-- A header of 20 bytes for ICMP or TCP. -/
theorem delivers_plain (hmem : w.bytes (p + 14) received.length = received)
    (hfive : datagramHeaderLength received = 5) (htotal : 20 ≤ datagramTotalLength received)
    (hle : datagramTotalLength received ≤ received.length)
    (hsum : internetChecksum (received.take 20) = 0)
    (hprotocol : datagramProtocol received = 1 ∨ datagramProtocol received = 6) :
    Delivers w p received := by
  have hheader : internetChecksum (w.bytes (p + 14) sizeofIpHeader) = 0 := by
    rw [datagram_bytes hmem (by rw [sizeofIpHeader]; omega)]
    exact hsum
  have hmessage : (w.ipHanded (p + 14)).ipMessage (p + 14) = datagramMessage received := by
    rw [ipMessage_eq hmem htotal hle, datagramMessage, hfive]
  obtain ⟨handler, hassigned, hhandler⟩ : ∃ handler,
      assignedHandler (datagramProtocol received) = some handler ∧
        w.ipHandler (p + 14) = some handler := by
    rw [ipHandler, if_pos hheader, u8_of_bytes hmem (by omega), ← datagramProtocol]
    obtain hicmp | htcp := hprotocol
    · rw [hicmp]
      exact ⟨.icmp, rfl, rfl⟩
    · rw [htcp]
      exact ⟨.tcp, rfl, rfl⟩
  exact ⟨handler, hassigned, hhandler, ipReceive_handler hhandler, hmessage⟩

/-- A well-formed datagram reaches its handler exactly when its header has no options and it is not
for UDP. -/
theorem ip_receive_delivers_iff (h : Ipv4Datagram received)
    (hmem : w.bytes (p + 14) received.length = received) :
    Delivers w p received ↔
      datagramHeaderLength received = 5 ∧ datagramProtocol received ≠ 17 := by
  obtain ⟨-, ⟨hmin, -⟩, ⟨htotal, hle⟩, hsum, hprotocol⟩ := h
  constructor
  · intro hdelivers
    refine ⟨?_, fun hudp => not_delivers_udp hmem (by omega) hudp hdelivers⟩
    apply Classical.byContradiction
    intro hne
    exact not_delivers_options hmem (by omega) htotal hle hdelivers
  · rintro ⟨hfive, hudp⟩
    rw [hfive] at hsum htotal
    refine delivers_plain hmem hfive htotal hle hsum ?_
    exact hprotocol.imp_right fun h => h.resolve_right hudp

end Handler

/-- An echo request, 28 bytes. -/
def sampleIcmp : List UInt8 :=
  [0x45, 0, 0, 28, 0, 1, 0, 0, 64, 1, 102, 222, 10, 0, 0, 1, 10, 0, 0, 2] ++
    [8, 0, 247, 253, 0, 1, 0, 1]

/-- The same behind a header with a router alert. -/
def sampleOptions : List UInt8 :=
  [0x46, 0, 0, 32, 0, 1, 0, 0, 64, 1, 209, 213, 10, 0, 0, 1, 10, 0, 0, 2, 148, 4, 0, 0] ++
    [8, 0, 247, 253, 0, 1, 0, 1]

/-- A UDP datagram without data. -/
def sampleUdp : List UInt8 :=
  [0x45, 0, 0, 28, 0, 1, 0, 0, 64, 17, 102, 206, 10, 0, 0, 1, 10, 0, 0, 2] ++
    [0, 53, 0, 53, 0, 8, 0, 0]

theorem sampleIcmp_datagram : Ipv4Datagram sampleIcmp := by
  constructor <;> decide +kernel

theorem sampleOptions_datagram : Ipv4Datagram sampleOptions := by
  constructor <;> decide +kernel

theorem sampleUdp_datagram : Ipv4Datagram sampleUdp := by
  constructor <;> decide +kernel

theorem ip_receive_delivers_icmp : ∃ w : World, Delivers w ⟨.rx, 0⟩ sampleIcmp := by
  obtain ⟨w, hmem⟩ := exists_bytes ((⟨.rx, 0⟩ : Ptr) + 14) sampleIcmp
  have hplain : datagramHeaderLength sampleIcmp = 5 ∧ datagramProtocol sampleIcmp ≠ 17 := by decide
  exact ⟨w, (ip_receive_delivers_iff sampleIcmp_datagram hmem).mpr hplain⟩

/-- A UDP datagram, and one with options: neither is delivered. -/
theorem ip_receive_drops_udp_and_options :
    (Ipv4Datagram sampleUdp ∧ ∃ w : World,
      w.bytes ((⟨.rx, 0⟩ : Ptr) + 14) sampleUdp.length = sampleUdp ∧
        ¬ Delivers w ⟨.rx, 0⟩ sampleUdp) ∧
    (Ipv4Datagram sampleOptions ∧ ∃ w : World,
      w.bytes ((⟨.rx, 0⟩ : Ptr) + 14) sampleOptions.length = sampleOptions ∧
        ¬ Delivers w ⟨.rx, 0⟩ sampleOptions) := by
  refine ⟨⟨sampleUdp_datagram, ?_⟩, ⟨sampleOptions_datagram, ?_⟩⟩
  · obtain ⟨w, hmem⟩ := exists_bytes ((⟨.rx, 0⟩ : Ptr) + 14) sampleUdp
    exact ⟨w, hmem, not_delivers_udp hmem (by decide) (by decide)⟩
  · obtain ⟨w, hmem⟩ := exists_bytes ((⟨.rx, 0⟩ : Ptr) + 14) sampleOptions
    have htotal := sampleOptions_datagram.totalLength
    exact ⟨w, hmem, not_delivers_options hmem (by decide) htotal.1 htotal.2⟩

end TcpIp
