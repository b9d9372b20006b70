import TcpIp.Protocols.TcpCheck

/-!
# The fields of a TCP header (`tcp_header_ntoh`, `tcp_header_hton`)

`tcp_header_ntoh` swaps the 16-bit ports, and the 32-bit numbers with the 16-bit `ntohs` as well:
their low halves are lost. It does not swap `reserved`, so on a little-endian host the high nibble and
the low six bits of that word are those of bytes 13 and 12 on the wire, the wrong way round; and
`TCP_CONTROL_SYN` is 32, the bit that is `URG` in RFC 793.

* `TcpFields`: the decoded fields; `rfc793Fields` reads them as RFC 793 has them and
  `World.tcpFields` as the code has them.
* `tcpNtoh_fields`, `tcpNtoh_tcpNtoh_bytes`: what the code makes of any header.
* `tcp_header_rfc793_iff`: the headers for which that is right.
-/

namespace TcpIp

open Bytes Prog World

/-! ## RFC 793 -/

structure TcpFields where
  srcPort : Nat
  dstPort : Nat
  seqNum : Nat
  ackNum : Nat
  dataOffset : Nat
deriving Repr, DecidableEq

def rfc793Fields (wire : List UInt8) : TcpFields where
  srcPort := be16 wire 0
  dstPort := be16 wire 2
  seqNum := 65536 * be16 wire 4 + be16 wire 6
  ackNum := 65536 * be16 wire 8 + be16 wire 10
  dataOffset := (wire.getD 12 0).toNat / 16

/-- Of the six control bits, `SYN` alone is set. -/
def Rfc793Syn (wire : List UInt8) : Prop := (wire.getD 13 0).toNat % 64 = 2

/-! ## The code -/

def tcpHeaderHton (header : Ptr) : M Unit := do
  swapField32As16 (header + 4)
  swapField32As16 (header + 8)
  swapField16 (header + 2)
  swapField16 header

def tcpHeaderGetDataOffset (reserved : UInt16) : UInt16 := (reserved >>> 12) &&& 0xf

/-- The fields of the structure at `header`, in host order. -/
def World.tcpFields (w : World) (header : Ptr) : TcpFields where
  srcPort := (w.u16 header).toNat
  dstPort := (w.u16 (header + 2)).toNat
  seqNum := (w.u32 (header + 4)).toNat
  ackNum := (w.u32 (header + 8)).toNat
  dataOffset := (tcpHeaderGetDataOffset (w.u16 (header + 12))).toNat

theorem tcpHeaderGetDataOffset_toNat (reserved : UInt16) :
    (tcpHeaderGetDataOffset reserved).toNat = reserved.toNat / 4096 := by
  have hlow : reserved.toNat / 4096 &&& 15 = reserved.toNat / 4096 % 16 :=
    Nat.and_two_pow_sub_one_eq_mod _ 4
  have hlt := reserved.toNat_lt
  rw [tcpHeaderGetDataOffset, UInt16.toNat_and, UInt16.toNat_shiftRight]
  simp only [UInt16.reduceToNat, Nat.shiftRight_eq_div_pow, Nat.reduceMod, Nat.reducePow, hlow]
  omega

theorem tcpHeaderGetControlBits_toNat (reserved : UInt16) :
    (tcpHeaderGetControlBits reserved).toNat = reserved.toNat % 64 := by
  rw [tcpHeaderGetControlBits, UInt16.toNat_and]
  exact Nat.and_two_pow_sub_one_eq_mod _ 6

/-- A 32-bit field after `x = ntohs(x)`. -/
def World.swap32As16 (w : World) (p : Ptr) : World :=
  ((w.touch p 4).touch p 4).write p (bytes32 (ntohs (w.u32 p).toUInt16).toUInt32)

/-- The world after `tcp_header_ntoh` or `tcp_header_hton`, which do the same swaps. -/
def World.tcpNtoh (w : World) (q : Ptr) : World :=
  let w := (w.swap32As16 (q + 4)).swap32As16 (q + 8)
  let w := ((w.touch (q + 2) 2).touch (q + 2) 2).write (q + 2) (bytes16 (ntohs (w.u16 (q + 2))))
  ((w.touch q 2).touch q 2).write q (bytes16 (ntohs (w.u16 q)))

theorem tcpHeaderNtoh_apply (q : Ptr) (w : World) : tcpHeaderNtoh q w = (.ok (), w.tcpNtoh q) := rfl

theorem tcpHeaderHton_apply (q : Ptr) (w : World) : tcpHeaderHton q w = (.ok (), w.tcpNtoh q) := rfl

section TcpNtoh

variable (w : World) (q : Ptr)

@[simp] theorem tcpNtoh_srcPort : (w.tcpNtoh q).u16 q = ntohs (w.u16 q) := by
  simp [tcpNtoh, swap32As16]

@[simp] theorem tcpNtoh_dstPort : (w.tcpNtoh q).u16 (q + 2) = ntohs (w.u16 (q + 2)) := by
  simp [tcpNtoh, swap32As16]

@[simp] theorem tcpNtoh_seqNum :
    (w.tcpNtoh q).u32 (q + 4) = (ntohs (w.u16 (q + 4))).toUInt32 := by
  simp [tcpNtoh, swap32As16, u32_toUInt16]

@[simp] theorem tcpNtoh_ackNum :
    (w.tcpNtoh q).u32 (q + 8) = (ntohs (w.u16 (q + 8))).toUInt32 := by
  simp [tcpNtoh, swap32As16, u32_toUInt16]

/-- The rest of the header is not changed. -/
@[simp] theorem tcpNtoh_rest (n : Nat) : (w.tcpNtoh q).bytes (q + 12) n = w.bytes (q + 12) n := by
  simp [tcpNtoh, swap32As16]

@[simp] theorem tcpNtoh_reserved : (w.tcpNtoh q).u16 (q + 12) = w.u16 (q + 12) := by
  simp [tcpNtoh, swap32As16]

/-- The numbers are the upper halves of those on the wire, and the offset is taken from the byte
behind it. -/
theorem tcpNtoh_fields {wire : List UInt8} (h : w.bytes q 20 = wire) : (w.tcpNtoh q).tcpFields q =
    { srcPort := be16 wire 0
      dstPort := be16 wire 2
      seqNum := be16 wire 4
      ackNum := be16 wire 8
      dataOffset := (wire.getD 13 0).toNat / 16 } := by
  have hword : ∀ i, i + 2 ≤ 20 → (ntohs (w.u16 (q + i))).toNat = be16 wire i := fun i hi =>
    ntohs_u16_of_bytes h hi
  have hsrc : (ntohs (w.u16 q)).toNat = be16 wire 0 := hword 0 (by decide)
  have hoffset : (w.u16 (q + 12)).toNat / 4096 = (wire.getD 13 0).toNat / 16 := by
    have h12 := (w.u8 (q + 12)).toNat_lt
    have h13 : w.u8 (q + 12 + 1) = wire.getD 13 0 := u8_of_bytes h (i := 13) (by decide)
    rw [u16, le16_toNat, h13]
    omega
  rw [tcpFields, tcpNtoh_srcPort, tcpNtoh_dstPort, tcpNtoh_seqNum, tcpNtoh_ackNum,
    tcpNtoh_reserved, UInt16.toNat_toUInt32, UInt16.toNat_toUInt32, tcpHeaderGetDataOffset_toNat,
    hsrc, hword 2 (by decide), hword 4 (by decide), hword 8 (by decide), hoffset]

/-- The 20 bytes of a header, field by field. -/
theorem World.bytes_tcpHeader :
    w.bytes q 20 = bytes16 (w.u16 q) ++ (bytes16 (w.u16 (q + 2)) ++ (bytes32 (w.u32 (q + 4)) ++
      (bytes32 (w.u32 (q + 8)) ++ w.bytes (q + 12) 8))) := by
  simp only [← bytes_two, ← bytes_four]
  show w.bytes q (2 + 2 + 4 + 4 + 8) = _
  simp only [bytes_add, List.append_assoc]

/-- `tcp_header_hton` restores all but the low halves of the numbers. -/
theorem tcpNtoh_tcpNtoh_bytes : ((w.tcpNtoh q).tcpNtoh q).bytes q 20 =
    w.bytes q 6 ++ ([0, 0] ++ (w.bytes (q + 8) 2 ++ ([0, 0] ++ w.bytes (q + 12) 8))) := by
  have hswap : ∀ v, ntohs (ntohs v) = v := swap16_swap16
  have hseq : (w.tcpNtoh q).u16 (q + 4) = ntohs (w.u16 (q + 4)) := by
    rw [← u32_toUInt16, tcpNtoh_seqNum, UInt16.toUInt16_toUInt32]
  have hack : (w.tcpNtoh q).u16 (q + 8) = ntohs (w.u16 (q + 8)) := by
    rw [← u32_toUInt16, tcpNtoh_ackNum, UInt16.toUInt16_toUInt32]
  rw [bytes_tcpHeader]
  simp only [tcpNtoh_srcPort, tcpNtoh_dstPort, tcpNtoh_seqNum, tcpNtoh_ackNum, tcpNtoh_rest, hseq,
    hack, hswap, bytes32_toUInt32, ← bytes_two]
  show _ = w.bytes q (2 + 2 + 2) ++ _
  simp only [bytes_add, List.append_assoc]

/-- So it restores a header with small numbers. -/
theorem tcpNtoh_tcpNtoh_restores {wire : List UInt8} (h : w.bytes q 20 = wire)
    (hseq : be16 wire 6 = 0) (hack : be16 wire 10 = 0) :
    ((w.tcpNtoh q).tcpNtoh q).bytes q 20 = wire := by
  have hzero : ∀ i, i + 2 ≤ 20 → be16 wire i = 0 → w.bytes (q + i) 2 = [0, 0] := fun i hi h0 => by
    have hword : ntohs (w.u16 (q + i)) = 0 :=
      UInt16.toNat_inj.mp ((ntohs_u16_of_bytes h hi).trans h0)
    have hu16 : w.u16 (q + i) = 0 := by
      rw [← htons_ntohs (w.u16 (q + i)), hword]
      rfl
    rw [bytes_two, hu16]
    rfl
  have hsplit : w.bytes q 20 = w.bytes q 6 ++ (w.bytes (q + 6) 2 ++ (w.bytes (q + 8) 2 ++
      (w.bytes (q + 10) 2 ++ w.bytes (q + 12) 8))) := by
    show w.bytes q (6 + 2 + 2 + 2 + 8) = _
    simp only [bytes_add, List.append_assoc]
  rw [tcpNtoh_tcpNtoh_bytes, ← h, hsplit, hzero 6 (by decide) hseq, hzero 10 (by decide) hack]

end TcpNtoh

section Reception

variable {w : World} {q : Ptr} {wire : List UInt8}

/-- `tcp_header_check` writes to its own variable only. -/
theorem tcpHeaderCheck_u16 (header : Ptr) {p : Ptr} (hp : p.obj ≠ .sum) :
    (tcpHeaderCheck q header w).2.u16 p = w.u16 p := by
  rw [tcpHeaderCheck, loadU16_bind, loadBytes_bind, loadU32_bind, loadU32_bind, storeU32_bind,
    loadBytes_bind, pure_apply, touch_u16, write_u16_ne fun ho => absurd ho hp]
  simp only [touch_u16]

/-- An accepted segment is logged as a SYN by the low bits of byte 12. -/
theorem tcpReceive_accepted (hq : q.obj ≠ .sum) (h : w.bytes (q + 20) 20 = wire)
    (hgood : (tcpHeaderCheck q (q + 20) w).1 = .ok true) :
    (tcpReceive q w).1 = .ok true ↔ (wire.getD 12 0).toNat % 64 = 32 := by
  have hrun : tcpHeaderCheck q (q + 20) w = (.ok true, (tcpHeaderCheck q (q + 20) w).2) :=
    Prod.ext hgood rfl
  have hreserved : ((tcpHeaderCheck q (q + 20) w).2.tcpNtoh (q + 20)).u16 (q + 20 + 12) =
      w.u16 (q + 20 + 12) := by
    rw [tcpNtoh_reserved]
    exact tcpHeaderCheck_u16 (q + 20) hq
  have hlow : (w.u16 (q + 20 + 12)).toNat % 64 = (wire.getD 12 0).toNat % 64 := by
    rw [u16, u8_of_bytes h (by decide), le16_toNat]
    omega
  have hsyn : TCP_CONTROL_SYN.toNat = 32 := by decide
  have hresult : (tcpReceive q w).1 =
      .ok (tcpHeaderGetControlBits (w.u16 (q + 20 + 12)) == TCP_CONTROL_SYN) := by
    rw [tcpReceive, bind_ok hrun, if_pos rfl, bind_ok (tcpHeaderNtoh_apply _ _), tcpHeaderFprint,
      touch_bind, loadU16_bind, touch_u16, hreserved, pure_apply]
  rw [hresult, Except.ok.injEq, beq_iff_eq, ← UInt16.toNat_inj, tcpHeaderGetControlBits_toNat, hlow,
    hsyn]

/-- Every segment is accepted from some address. -/
theorem exists_accepted (q : Ptr) (segment : List UInt8) (h : segment.length ≤ 65515) :
    ∃ w : World, w.bytes (q + 20) segment.length = segment ∧
      (tcpHeaderCheck q (q + 20) w).1 = .ok true := by
  have hlt := (sum16 segment).toNat_lt
  have hlen := (htons (UInt16.ofNat segment.length)).toNat_lt
  have hsix : (htons PROTOCOL_TCP.toUInt16).toNat = 1536 := by decide
  have hdst : (htonl 0).toNat = 0 := by decide
  -- The source address that makes the sum a multiple of `0xffff`.
  obtain ⟨k, hk, hpos, hmul⟩ : ∃ k ≤ 65535, 0 < k ∧ ((sum16 segment).toNat +
      (htons (UInt16.ofNat segment.length)).toNat + 1536 + k) % 65535 = 0 :=
    ⟨65535 - ((sum16 segment).toNat + (htons (UInt16.ofNat segment.length)).toNat + 1536) % 65535,
      by omega, by omega, by omega⟩
  obtain ⟨w, hw⟩ := exists_holdsSegment q (ntohl (UInt32.ofNat k)) 0 segment h
  refine ⟨w, hw.segment, (tcpHeaderCheck_spec hw).mpr ?_⟩
  rw [tcpExactSum, tcpAddressSum, htonl_ntohl, UInt32.toNat_ofNat', Nat.mod_eq_of_lt (by omega),
    hdst, hsix]
  omega

end Reception

/-- The host decodes the header as RFC 793 has it: its fields after `tcp_header_ntoh`, the SYN of an
accepted segment, and the bytes that `tcp_header_hton` makes of the fields. -/
structure DecodesRfc793 (wire : List UInt8) : Prop where
  fields : ∀ (w w' : World) (q : Ptr), w.bytes q 20 = wire →
    tcpHeaderNtoh q w = (.ok (), w') → w'.tcpFields q = rfc793Fields wire
  syn : ∀ (w : World) (q : Ptr), q.obj ≠ .sum → w.bytes (q + 20) 20 = wire →
    (tcpHeaderCheck q (q + 20) w).1 = .ok true →
    ((tcpReceive q w).1 = .ok true ↔ Rfc793Syn wire)
  restores : ∀ (w w' w'' : World) (q : Ptr), w.bytes q 20 = wire →
    tcpHeaderNtoh q w = (.ok (), w') → tcpHeaderHton q w' = (.ok (), w'') →
    w''.bytes q 20 = wire

/-- A header is decoded as RFC 793 has it exactly when both numbers are zero, bytes 12 and 13 have
the same high nibble, byte 12 does not end in the bits that the code takes for a SYN, and byte 13 not
in those of a SYN. -/
theorem tcp_header_rfc793_iff {wire : List UInt8} (hlen : wire.length = 20) :
    DecodesRfc793 wire ↔
      (rfc793Fields wire).seqNum = 0 ∧ (rfc793Fields wire).ackNum = 0 ∧
        (wire.getD 12 0).toNat / 16 = (wire.getD 13 0).toNat / 16 ∧
        (wire.getD 12 0).toNat % 64 ≠ 32 ∧ ¬ Rfc793Syn wire := by
  obtain ⟨w, hwire, hgood⟩ := exists_accepted ⟨.rx, 14⟩ wire (by omega)
  rw [hlen] at hwire
  simp only [Rfc793Syn]
  constructor
  · rintro ⟨hfields, hsyn, -⟩
    have h := hfields w _ _ hwire (tcpHeaderNtoh_apply _ w)
    rw [tcpNtoh_fields w _ hwire, rfc793Fields, TcpFields.mk.injEq] at h
    obtain ⟨-, -, hseq, hack, hoffset⟩ := h
    have hcontrol := hsyn w _ (by simp) hwire hgood
    rw [tcpReceive_accepted (by simp) hwire hgood, Rfc793Syn] at hcontrol
    simp only [rfc793Fields]
    omega
  · rintro ⟨hseq, hack, hoffset, hurg, hsyn⟩
    simp only [rfc793Fields] at hseq hack
    refine ⟨?_, ?_, ?_⟩
    · intro w w' q h hrun
      obtain rfl : w.tcpNtoh q = w' := by simpa [tcpHeaderNtoh_apply] using hrun
      rw [tcpNtoh_fields w q h, rfc793Fields, TcpFields.mk.injEq]
      omega
    · intro w q hq h hgood
      rw [tcpReceive_accepted hq h hgood, Rfc793Syn]
      omega
    · intro w w' w'' q h hrun hrun'
      obtain rfl : w.tcpNtoh q = w' := by simpa [tcpHeaderNtoh_apply] using hrun
      obtain rfl : (w.tcpNtoh q).tcpNtoh q = w'' := by simpa [tcpHeaderHton_apply] using hrun'
      exact tcpNtoh_tcpNtoh_restores w q h (by omega) (by omega)

/-- A segment with both numbers zero, an offset of 5 and the bytes 12 and 13 alike. -/
theorem tcp_header_rfc793_zero :
    DecodesRfc793 [192, 0, 0, 80, 0, 0, 0, 0, 0, 0, 0, 0, 0x50, 0x50, 4, 0, 0, 0, 0, 0] :=
  (tcp_header_rfc793_iff rfl).mpr (by unfold Rfc793Syn; decide)

/-- A SYN with the sequence number 1. -/
def sampleSyn : List UInt8 :=
  [192, 0, 0, 80, 0, 0, 0, 1, 0, 0, 0, 0, 0x50, 2, 4, 0, 215, 142, 0, 0]

/-- It is decoded with the sequence number 0 and the offset 0, it is not logged, and the sequence
number is not restored. -/
theorem tcp_header_rfc793_syn : ¬ DecodesRfc793 sampleSyn ∧ Rfc793Syn sampleSyn ∧
    rfc793Fields sampleSyn = ⟨0xc000, 80, 1, 0, 5⟩ ∧
    ∃ w : World, w.bytes ⟨.rx, 34⟩ 20 = sampleSyn ∧
      (w.tcpNtoh ⟨.rx, 34⟩).tcpFields ⟨.rx, 34⟩ = ⟨0xc000, 80, 0, 0, 0⟩ ∧
      (tcpReceive ⟨.rx, 14⟩ w).1 ≠ .ok true ∧
      ((w.tcpNtoh ⟨.rx, 34⟩).tcpNtoh ⟨.rx, 34⟩).bytes ⟨.rx, 34⟩ 20 ≠ sampleSyn := by
  have hsyn : Rfc793Syn sampleSyn := by
    unfold Rfc793Syn
    decide
  obtain ⟨w, hwire, hgood⟩ := exists_accepted ⟨.rx, 14⟩ sampleSyn (by decide)
  have hmissed : ¬ (tcpReceive ⟨.rx, 14⟩ w).1 = .ok true := by
    rw [tcpReceive_accepted (by simp) hwire hgood]
    decide
  refine ⟨fun h => hmissed ((h.syn w _ (by simp) hwire hgood).mpr hsyn), hsyn, by decide, w, hwire,
    ?_, hmissed, ?_⟩
  · exact (tcpNtoh_fields w _ hwire).trans (by decide)
  · rw [tcpNtoh_tcpNtoh_bytes]
    intro h
    have h7 : (0 : UInt8) = 1 := congrArg (List.getD · 7 0) h
    exact absurd h7 (by decide)

end TcpIp
