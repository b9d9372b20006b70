import TcpIp.Protocols.IpReceive
import TcpIp.Utils.Checksum

/-!
# The TCP checksum (`tcp_header_check`)

RFC 793 sums the words of a pseudo-header and of the segment in one's complement. The code adds the
folded sum of the segment, two 16-bit words and the two addresses as 32-bit words in a `uint32_t`,
and folds the result: `2 ^ 32` is `1` modulo `0xffff`, so each carry out of 32 bits that the addition
drops makes the sum one too small.

* `tcpExactSum`: the sum without a bound; it has the residue of the sum of RFC 793.
* `tcpHeaderCheck_spec`: the result of the check is a function of the exact sum.
* `carriesHarmless_iff`: the addresses and the length for which no segment is misjudged.
-/

namespace TcpIp

open Bytes OnesComplement Prog World

/-! ## RFC 793 -/

/-- The bytes of a 32-bit value in network order. -/
def networkBytes32 (v : UInt32) : List UInt8 := [byte32 v 3, byte32 v 2, byte32 v 1, byte32 v 0]

/-- Source, destination, zero, protocol and length. -/
def tcpPseudoHeader (src dst : UInt32) (n : Nat) : List UInt8 :=
  networkBytes32 src ++ networkBytes32 dst ++ [0, PROTOCOL_TCP] ++ networkBytes16 n

/-- The checksum of a segment is right. -/
def TcpValid (src dst : UInt32) (segment : List UInt8) : Prop :=
  rfc1071Sum (tcpPseudoHeader src dst segment.length ++ segment) = 0xffff

/-- What the check adds to the sum of the segment. -/
def tcpAddressSum (src dst : UInt32) (n : Nat) : Nat :=
  (htons (UInt16.ofNat n)).toNat + (htons PROTOCOL_TCP.toUInt16).toNat + (htonl src).toNat +
    (htonl dst).toNat

/-- The sum of the check, without a bound. -/
def tcpExactSum (src dst : UInt32) (segment : List UInt8) : Nat :=
  (sum16 segment).toNat + tcpAddressSum src dst segment.length

theorem bytes32_htonl (v : UInt32) : bytes32 (htonl v) = networkBytes32 v := by
  rw [htonl, swap32, bytes32_le32, networkBytes32]

theorem bytes16_htons {n : Nat} (h : n < 65536) :
    bytes16 (htons (UInt16.ofNat n)) = networkBytes16 n := by
  have hn : (UInt16.ofNat n).toNat = n := by
    rw [UInt16.toNat_ofNat', Nat.mod_eq_of_lt h]
  have hlow : byte16 (UInt16.ofNat n) 0 = UInt8.ofNat (n % 256) := by
    rw [byte16, hn, Nat.pow_zero, Nat.div_one, ← UInt8.toNat_inj, UInt8.toNat_ofNat',
      UInt8.toNat_ofNat', Nat.mod_mod]
  have hhigh : byte16 (UInt16.ofNat n) 1 = UInt8.ofNat (n / 256) := by
    rw [byte16, hn, Nat.pow_one]
  rw [htons, swap16, bytes16_le16, hlow, hhigh, networkBytes16]

theorem wordSum_tcpPseudoHeader (src dst : UInt32) {n : Nat} (h : n < 65536) :
    wordSum (tcpPseudoHeader src dst n) % 65535 = tcpAddressSum src dst n % 65535 ∧
      wordSum (tcpPseudoHeader src dst n) ≠ 0 := by
  have hprotocol : [0, PROTOCOL_TCP] = bytes16 (htons PROTOCOL_TCP.toUInt16) := by decide
  have hsix : (htons PROTOCOL_TCP.toUInt16).toNat = 1536 := by decide
  rw [tcpPseudoHeader, ← bytes32_htonl, ← bytes32_htonl, hprotocol, ← bytes16_htons h,
    wordSum_append (by simp), wordSum_append (by simp), wordSum_append (by simp), wordSum_bytes32,
    wordSum_bytes32, wordSum_bytes16, wordSum_bytes16, tcpAddressSum, hsix]
  omega

section Segment

variable (src dst : UInt32) {segment : List UInt8}

theorem length_tcpPseudoHeader (n : Nat) : (tcpPseudoHeader src dst n).length = 12 := by
  simp [tcpPseudoHeader, networkBytes32, networkBytes16]

/-- The exact sum decides whether the checksum is right. -/
theorem tcpValid_iff (hlen : segment.length ≤ 65515) :
    TcpValid src dst segment ↔ tcpExactSum src dst segment % 65535 = 0 := by
  obtain ⟨hmod, hpos⟩ := wordSum_tcpPseudoHeader src dst (n := segment.length) (by omega)
  have hsum := endAround_mod (by decide : 1 < 65536) (wordSum segment)
  have hmax := endAround_eq_max (by decide : 1 < 65536)
    (wordSum (tcpPseudoHeader src dst segment.length ++ segment))
  have hle := endAround_le (by decide : 1 < 65536)
    (wordSum (tcpPseudoHeader src dst segment.length ++ segment))
  rw [TcpValid, rfc1071Sum, onesSum_beWords, tcpExactSum, sum16_toNat_mod,
    wordSum_mod (by omega)]
  rw [wordSum_append (by rw [length_tcpPseudoHeader])] at hmax hle ⊢
  generalize wordSum (tcpPseudoHeader src dst segment.length) = p at *
  generalize endAround 65536 (p + wordSum segment) = s at *
  generalize endAround 65536 (wordSum segment) = t at *
  omega

end Segment

/-! ## The check -/

/-- The header at `ipHeader`, in host order, and the `segment` at `header`. -/
structure World.HoldsSegment (w : World) (ipHeader header : Ptr) (src dst : UInt32)
    (segment : List UInt8) : Prop where
  len : (w.u16 (ipHeader + 2)).toNat = 20 + segment.length
  src : w.u32 (ipHeader + 12) = src
  dst : w.u32 (ipHeader + 16) = dst
  segment : w.bytes header segment.length = segment

/-- The carries out of 32 bits do not change the verdict: there is none, or neither the exact sum
nor the sum without them is a nonzero multiple of `0xffff`. -/
def CarriesHarmless (src dst : UInt32) (segment : List UInt8) : Prop :=
  tcpExactSum src dst segment < 2 ^ 32 ∨
    tcpExactSum src dst segment % 65535 ≠ 0 ∧
      (tcpExactSum src dst segment % 65535 = tcpExactSum src dst segment / 2 ^ 32 →
        tcpExactSum src dst segment % 2 ^ 32 = 0)

section Check

variable {w : World} {ipHeader header : Ptr} {src dst : UInt32} {segment : List UInt8}

/-- **`tcp_header_check`** folds the exact sum modulo `2 ^ 32`. -/
theorem tcpHeaderCheck_spec (h : w.HoldsSegment ipHeader header src dst segment) :
    (tcpHeaderCheck ipHeader header w).1 = .ok true ↔
      tcpExactSum src dst segment % 2 ^ 32 ≠ 0 ∧
        tcpExactSum src dst segment % 2 ^ 32 % 65535 = 0 := by
  have hlen : payloadLength32 (w.u16 (ipHeader + 2)) = segment.length := by
    rw [payloadLength32_eq (by rw [h.len]; omega), h.len, Nat.add_sub_cancel_left]
  let sum : UInt32 := (sum16 segment).toUInt32 + (htons (UInt16.ofNat segment.length)).toUInt32 +
    (htons PROTOCOL_TCP.toUInt16).toUInt32 + htonl src + htonl dst
  have hsum : sum.toNat = tcpExactSum src dst segment % 2 ^ 32 := by
    simp only [sum, UInt32.toNat_add, UInt16.toNat_toUInt32, tcpExactSum, tcpAddressSum]
    omega
  have hrun : (tcpHeaderCheck ipHeader header w).1 = .ok (internetChecksum (bytes32 sum) == 0) := by
    simp only [tcpHeaderCheck, loadU16_bind, hlen, loadBytes_bind, loadU32_bind, storeU32_bind,
      touch_bytes, touch_u32, h.src, h.dst, h.segment, pure_apply]
    rw [write_bytes_same (length_bytes32 _).symm]
  have hlt := sum.toNat_lt
  rw [hrun, Except.ok.injEq, beq_iff_eq, internetChecksum_eq_zero (by simp), wordSum_bytes32,
    ← hsum]
  omega

/-- The verdict is that of RFC 793 exactly when the carries are harmless. -/
theorem tcpHeaderCheck_agrees_iff (hn : segment.length ≤ 65515)
    (h : w.HoldsSegment ipHeader header src dst segment) :
    ((tcpHeaderCheck ipHeader header w).1 = .ok true ↔ TcpValid src dst segment) ↔
      CarriesHarmless src dst segment := by
  have hsix : (htons PROTOCOL_TCP.toUInt16).toNat = 1536 := by decide
  have hpos : 0 < tcpExactSum src dst segment := by
    rw [tcpExactSum, tcpAddressSum, hsix]
    omega
  have hlt : tcpExactSum src dst segment < 3 * 2 ^ 32 := by
    have h1 := (sum16 segment).toNat_lt
    have h2 := (htons (UInt16.ofNat segment.length)).toNat_lt
    have h3 := (htonl src).toNat_lt
    have h4 := (htonl dst).toNat_lt
    rw [tcpExactSum, tcpAddressSum, hsix]
    omega
  rw [tcpHeaderCheck_spec h, tcpValid_iff src dst hn, CarriesHarmless]
  generalize tcpExactSum src dst segment = sum at *
  -- At most two carries.
  obtain ⟨c, r, hr, hc, rfl⟩ : ∃ c r, r < 2 ^ 32 ∧ c < 3 ∧ sum = 2 ^ 32 * c + r :=
    ⟨sum / 2 ^ 32, sum % 2 ^ 32, by omega, by omega, (Nat.div_add_mod _ _).symm⟩
  have hdiv : (2 ^ 32 * c + r) / 2 ^ 32 = c := by omega
  have hmod : (2 ^ 32 * c + r) % 2 ^ 32 = r := by omega
  rw [hdiv, hmod]
  obtain rfl | rfl | rfl : c = 0 ∨ c = 1 ∨ c = 2 := by omega
  · omega
  · omega
  · omega

end Check

/-! ## Addresses without a carry -/

/-- Every 16-bit value is the sum of some segment. -/
theorem exists_sum16 (v : UInt16) {n : Nat} (hn : 2 ≤ n) (hle : n ≤ 65515) :
    ∃ segment : List UInt8, segment.length = n ∧ sum16 segment = v := by
  have hzeros : wordSum (List.replicate (n - 2) 0) = 0 := by
    rw [wordSum_eq_zero]
    exact fun b hb => List.eq_of_mem_replicate hb
  have hlen : (bytes16 v ++ List.replicate (n - 2) 0).length = n := by
    rw [List.length_append, length_bytes16, List.length_replicate]
    omega
  have hlt := v.toNat_lt
  refine ⟨_, hlen, ?_⟩
  rw [← UInt16.toNat_inj, sum16_toNat_mod, wordSum_mod (by omega), wordSum_append (by simp), hzeros,
    wordSum_bytes16, endAround, if_neg (by omega), Nat.add_zero]

/-- No segment of `n` bytes is misjudged exactly when the addresses and the length leave room for
the sum of the segment, up to the carries that are harmless. -/
theorem carriesHarmless_iff (src dst : UInt32) {n : Nat} (hn : 2 ≤ n) (hle : n ≤ 65515) :
    (∀ segment : List UInt8, segment.length = n → CarriesHarmless src dst segment) ↔
      tcpAddressSum src dst n < 2 ^ 32 - 1 := by
  constructor
  · intro h
    by_contra hge
    -- Some sum is a multiple of `0xffff` and carries.
    obtain ⟨t, ht, hmul, hcarry⟩ : ∃ t < 65536, (t + tcpAddressSum src dst n) % 65535 = 0 ∧
        2 ^ 32 ≤ t + tcpAddressSum src dst n :=
      ⟨65535 - tcpAddressSum src dst n % 65535, by omega, by omega, by omega⟩
    obtain ⟨segment, hlen, hsum⟩ := exists_sum16 (UInt16.ofNat t) hn hle
    have hexact : tcpExactSum src dst segment = t + tcpAddressSum src dst n := by
      rw [tcpExactSum, hsum, hlen, UInt16.toNat_ofNat', Nat.mod_eq_of_lt ht]
    have := h segment hlen
    rw [CarriesHarmless, hexact] at this
    omega
  · intro h segment hlen
    have hlt := (sum16 segment).toNat_lt
    have hexact : tcpExactSum src dst segment =
        (sum16 segment).toNat + tcpAddressSum src dst n := by rw [tcpExactSum, hlen]
    rw [CarriesHarmless, hexact]
    omega

/-- Any segment may arrive. -/
theorem exists_holdsSegment (q : Ptr) (src dst : UInt32) (segment : List UInt8)
    (h : segment.length ≤ 65515) : ∃ w : World, w.HoldsSegment q (q + 20) src dst segment := by
  obtain ⟨w, hsegment⟩ := exists_bytes (q + 20) segment
  refine ⟨((w.write (q + 2) (bytes16 (UInt16.ofNat (20 + segment.length)))).write (q + 12)
    (bytes32 src)).write (q + 16) (bytes32 dst), ?_, ?_, ?_, ?_⟩
  · rw [write_u16_ne (by simp), write_u16_ne (by simp), write_u16_same, UInt16.toNat_ofNat',
      Nat.mod_eq_of_lt (by omega)]
  · rw [write_u32_ne (by simp), write_u32_same]
  · rw [write_u32_same]
  · rw [write_bytes_ne (by simp), write_bytes_ne (by simp), write_bytes_ne (by simp), hsegment]

/-- **When the verdict is that of RFC 793**: for one segment, when the carries out of 32 bits are
harmless; for every segment of `n` bytes, when the rest of the sum is below `2 ^ 32 - 1`. -/
theorem tcpHeaderCheck_rfc793 (src dst : UInt32) :
    (∀ (w : World) (ipHeader header : Ptr) (segment : List UInt8),
      20 ≤ segment.length → segment.length ≤ 65515 →
      w.HoldsSegment ipHeader header src dst segment →
      (((tcpHeaderCheck ipHeader header w).1 = .ok true ↔ TcpValid src dst segment) ↔
        CarriesHarmless src dst segment)) ∧
    (∀ n : Nat, 20 ≤ n → n ≤ 65515 →
      ((∀ (w : World) (ipHeader header : Ptr) (segment : List UInt8), segment.length = n →
        w.HoldsSegment ipHeader header src dst segment →
        ((tcpHeaderCheck ipHeader header w).1 = .ok true ↔ TcpValid src dst segment)) ↔
      tcpAddressSum src dst n < 2 ^ 32 - 1)) := by
  refine ⟨?_, ?_⟩
  · intro w ipHeader header segment _ hle hw
    exact tcpHeaderCheck_agrees_iff hle hw
  · intro n hn hle
    rw [← carriesHarmless_iff src dst (by omega) hle]
    constructor
    · intro h segment hlen
      obtain ⟨w, hw⟩ := exists_holdsSegment ⟨.rx, 14⟩ src dst segment (by omega)
      exact (tcpHeaderCheck_agrees_iff (by omega) hw).mp (h w _ _ segment hlen hw)
    · intro h w ipHeader header segment hlen hw
      exact (tcpHeaderCheck_agrees_iff (by omega) hw).mpr (h segment hlen)

/-- A SYN from 10.0.0.1 to 10.0.0.2 is accepted. -/
theorem tcpHeaderCheck_rfc793_syn :
    tcpAddressSum 0x0a000001 0x0a000002 20 < 2 ^ 32 - 1 ∧
    ∃ w : World, (tcpHeaderCheck ⟨.rx, 14⟩ ⟨.rx, 34⟩ w).1 = .ok true := by
  have haddress : tcpAddressSum 0x0a000001 0x0a000002 20 < 2 ^ 32 - 1 := by decide +kernel
  let segment : List UInt8 :=
    [192, 0, 0, 80, 0, 0, 0, 1, 0, 0, 0, 0, 80, 2, 4, 0, 215, 142, 0, 0]
  obtain ⟨w, hw⟩ := exists_holdsSegment ⟨.rx, 14⟩ 0x0a000001 0x0a000002 segment
    (by decide)
  have hvalid : TcpValid 0x0a000001 0x0a000002 segment := by
    unfold TcpValid
    decide +kernel
  have h := ((tcpHeaderCheck_rfc793 0x0a000001 0x0a000002).2 20 (by decide) (by decide)).mpr
    haddress
  exact ⟨haddress, w, (h w _ _ segment rfl hw).mpr hvalid⟩

/-- The same SYN from 10.0.0.200 to 10.0.0.100: the last octets carry, and the segment is
rejected with the right checksum. -/
theorem tcpHeaderCheck_carry_lost :
    ∃ (w : World) (segment : List UInt8), segment.length = 20 ∧
      w.HoldsSegment ⟨.rx, 14⟩ ⟨.rx, 34⟩ 0x0a0000c8 0x0a000064 segment ∧
      TcpValid 0x0a0000c8 0x0a000064 segment ∧
      (tcpHeaderCheck ⟨.rx, 14⟩ ⟨.rx, 34⟩ w).1 ≠ .ok true := by
  let segment : List UInt8 :=
    [192, 0, 0, 80, 0, 0, 0, 1, 0, 0, 0, 0, 80, 2, 4, 0, 214, 101, 0, 0]
  obtain ⟨w, hw⟩ := exists_holdsSegment ⟨.rx, 14⟩ 0x0a0000c8 0x0a000064 segment
    (by decide)
  have hvalid : TcpValid 0x0a0000c8 0x0a000064 segment := by
    unfold TcpValid
    decide +kernel
  refine ⟨w, segment, rfl, hw, hvalid, fun h => ?_⟩
  have hsum := ((tcpHeaderCheck_spec hw).mp h).2
  exact absurd hsum (by decide +kernel)

end TcpIp
