import TcpIp.Protocols.Ip
import TcpIp.Utils.Checksum

/-!
# Checksums that are computed, and checksums that are verified

Senders zero the checksum field, sum the buffer and store the complement in the field
(`updateChecksum`). The buffer then verifies, and a second update finds the value it would store
(`updateChecksum_checksum`, `updateChecksum_idem`). In memory this is `storeChecksum`, which
`ip_header_update_checksum` and `receive_echo_request` run.

A buffer that verifies does not after a change inside one word, unless the word was complemented
from all zeros or all ones (`internetChecksum_wordError`).
-/

namespace TcpIp

open Bytes OnesComplement Prog World

/-! ## Computing -/

/-- The buffer with the field at `k` zeroed, then filled with the checksum. -/
def updateChecksum (l : List UInt8) (k : Nat) : List UInt8 :=
  let zeroed := overlay l k (bytes16 0)
  overlay zeroed k (bytes16 (internetChecksum zeroed))

section Update

variable {l : List UInt8} {k : Nat}

theorem overlay_bytes16 (l : List UInt8) (k : Nat) (v v' : UInt16) :
    overlay (overlay l k (bytes16 v)) k (bytes16 v') = overlay l k (bytes16 v') :=
  overlay_overlay l k rfl

theorem updateChecksum_eq (l : List UInt8) (k : Nat) : updateChecksum l k =
    overlay l k (bytes16 (internetChecksum (overlay l k (bytes16 0)))) :=
  overlay_bytes16 l k _ _

theorem updateChecksum_checksum (hlen : l.length ≤ 131074) (heven : k % 2 = 0)
    (hk : k + 2 ≤ l.length) : internetChecksum (updateChecksum l k) = 0 := by
  have hfield : ∀ v : UInt16, overlay l k (bytes16 v) =
      l.take k ++ (bytes16 v ++ l.drop (k + 2)) := fun v =>
    overlay_eq_append (by rw [length_bytes16]; exact hk)
  have hpre : (l.take k).length = k := by
    rw [List.length_take]
    omega
  rw [updateChecksum_eq, hfield, hfield]
  exact internetChecksum_patch (by rw [hpre]; exact heven)
    (by rw [hpre, List.length_drop]; omega)

/-- The zeroed buffer, and so the checksum, does not depend on the old value of the field. -/
theorem updateChecksum_idem (l : List UInt8) (k : Nat) :
    updateChecksum (updateChecksum l k) k = updateChecksum l k := by
  have hzeroed : overlay (updateChecksum l k) k (bytes16 0) = overlay l k (bytes16 0) := by
    rw [updateChecksum_eq, overlay_bytes16]
  rw [updateChecksum_eq (updateChecksum l k), hzeroed, updateChecksum_eq, overlay_bytes16]

end Update

/-! ## In memory -/

/-- Zero the field at `k` of a buffer of `len` bytes, and store the checksum of the buffer there. -/
def storeChecksum (p : Ptr) (k len : Nat) : M Unit := do
  storeU16 (p + k) 0
  let bytes ← loadBytes p len
  storeU16 (p + k) (internetChecksum bytes)

theorem ipHeaderUpdateChecksum_eq (header : Ptr) :
    ipHeaderUpdateChecksum header = storeChecksum header 10 20 := rfl

/-- What `receive_echo_request` does to the ICMP message. -/
def recomputeIcmp (header : Ptr) (len : Nat) : M Unit := do
  storeU8 header ICMP_ECHO_REPLY
  storeChecksum header 2 len

/-- What it does after that. -/
def sendEchoReply (ipHeader : Ptr) : M Unit := do
  let srcAddr ← loadU32 (ipHeader + 12)
  storeU32 (ipHeader + 16) srcAddr
  let ip ← netInterfaceGetIp
  storeU32 (ipHeader + 12) (ntohl ip)
  ipSendPacket ipHeader

theorem receiveEchoRequest_stages (ipHeader header : Ptr) : receiveEchoRequest ipHeader header =
    loadU16 (ipHeader + 2) >>= fun ipLen =>
      recomputeIcmp header (payloadLength32 ipLen) >>= fun _ => sendEchoReply ipHeader := by
  simp only [receiveEchoRequest, recomputeIcmp, storeChecksum, sendEchoReply, bind_assoc]

section Memory

variable (w : World) (p : Ptr) (k len : Nat)

theorem write_bytes16_mem (v v' : UInt16) :
    ((w.write p (bytes16 v)).write p (bytes16 v')).mem = (w.write p (bytes16 v')).mem :=
  write_write_mem rfl

theorem storeChecksum_spec : ∃ w', storeChecksum p k len w = (.ok (), w') ∧
    w'.mem = (w.write (p + k)
      (bytes16 (internetChecksum (overlay (w.bytes p len) k (bytes16 0))))).mem := by
  refine ⟨_, rfl, ?_⟩
  rw [write_bytes_overlay, touch_bytes]
  exact write_bytes16_mem w (p + k) 0 _

/-- The field depends on the rest of the buffer only: the second store is the first again. -/
theorem storeChecksum_again {w' w₁ : World} (h : storeChecksum p k len w = (.ok (), w'))
    (hw₁ : w₁.mem = w'.mem) :
    ∃ w'', storeChecksum p k len w₁ = (.ok (), w'') ∧ w''.mem = w'.mem := by
  obtain ⟨w₂, hrun, hmem⟩ := storeChecksum_spec w p k len
  obtain rfl : w₂ = w' := (Prod.mk.inj (hrun.symm.trans h)).2
  obtain ⟨w'', hrun', hmem'⟩ := storeChecksum_spec w₁ p k len
  have hsame := hw₁.trans hmem
  refine ⟨w'', hrun', hmem'.trans ?_⟩
  rw [bytes_congr hsame, write_bytes_overlay, overlay_bytes16, write_mem_congr hsame,
    write_bytes16_mem, hmem]

theorem storeChecksum_bytes {w' : World} (h : storeChecksum p k len w = (.ok (), w')) :
    w'.bytes p len = updateChecksum (w.bytes p len) k := by
  obtain ⟨w₂, hrun, hmem⟩ := storeChecksum_spec w p k len
  obtain rfl : w₂ = w' := (Prod.mk.inj (hrun.symm.trans h)).2
  rw [bytes_congr hmem, write_bytes_overlay, updateChecksum_eq]

theorem ipHeaderCheck_apply (header : Ptr) : ipHeaderCheck header w =
    (.ok (internetChecksum (w.bytes header 20) == 0), w.touch header 20) := rfl

theorem icmpCheck_apply (header : Ptr) : icmpCheck header len w =
    (.ok (internetChecksum (w.bytes header len) == 0), w.touch header len) := rfl

/-- `recomputeIcmp` returns; a second run changes nothing. -/
theorem recomputeIcmp_spec (header : Ptr) : ∃ w' w'', recomputeIcmp header len w = (.ok (), w') ∧
    w'.bytes header len = updateChecksum (overlay (w.bytes header len) 0 [ICMP_ECHO_REPLY]) 2 ∧
    recomputeIcmp header len w' = (.ok (), w'') ∧ w''.mem = w'.mem := by
  let typed : World → World := fun w => (w.touch header 1).write header [ICMP_ECHO_REPLY]
  obtain ⟨w', hrun, hmem⟩ := storeChecksum_spec (typed w) header 2 len
  have htype : w'.bytes header 1 = [ICMP_ECHO_REPLY] := by
    rw [bytes_congr hmem, write_bytes_ne (by simp)]
    exact write_bytes_same rfl
  have htyped : (typed w').mem = w'.mem := by
    show (w'.write header [ICMP_ECHO_REPLY]).mem = _
    rw [← htype, write_bytes_mem]
  obtain ⟨w'', hrun', hmem'⟩ := storeChecksum_again (typed w) header 2 len hrun htyped
  refine ⟨w', w'', hrun, ?_, hrun', hmem'⟩
  rw [storeChecksum_bytes _ _ _ _ hrun]
  exact congrArg (updateChecksum · 2) (write_bytes_overlay (w := w.touch header 1) 0)

end Memory

/-- **A computed checksum verifies**, and computing it again changes nothing: for a field at any
even offset of a buffer of up to 65535 bytes, for `ip_header_update_checksum`, and for the reply
that `receive_echo_request` sends. -/
theorem updateChecksum_verifies :
    (∀ (l : List UInt8) (k : Nat), l.length ≤ 65535 → k % 2 = 0 → k + 2 ≤ l.length →
      internetChecksum (updateChecksum l k) = 0 ∧
      updateChecksum (updateChecksum l k) k = updateChecksum l k) ∧
    (∀ (w : World) (header : Ptr), ∃ w' w'', ipHeaderUpdateChecksum header w = (.ok (), w') ∧
      (ipHeaderCheck header w').1 = .ok true ∧
      ipHeaderUpdateChecksum header w' = (.ok (), w'') ∧ w''.mem = w'.mem) ∧
    (∀ (w : World) (ipHeader header : Ptr) (len : Nat),
      payloadLength32 (w.u16 (ipHeader + 2)) = len → 4 ≤ len → len ≤ 65535 →
      ∃ w' w'', recomputeIcmp header len (w.touch (ipHeader + 2) 2) = (.ok (), w') ∧
        receiveEchoRequest ipHeader header w = sendEchoReply ipHeader w' ∧
        (icmpCheck header len w').1 = .ok true ∧
        recomputeIcmp header len w' = (.ok (), w'') ∧ w''.mem = w'.mem) := by
  refine ⟨?_, ?_, ?_⟩
  · intro l k hlen heven hk
    exact ⟨updateChecksum_checksum (by omega) heven hk, updateChecksum_idem l k⟩
  · intro w header
    simp only [ipHeaderUpdateChecksum_eq]
    obtain ⟨w', hrun, -⟩ := storeChecksum_spec w header 10 20
    obtain ⟨w'', hrun', hmem'⟩ := storeChecksum_again w header 10 20 hrun rfl
    have hlen : (w.bytes header 20).length = 20 := length_readN _ _ _
    refine ⟨w', w'', hrun, ?_, hrun', hmem'⟩
    rw [ipHeaderCheck_apply, storeChecksum_bytes _ _ _ _ hrun,
      updateChecksum_checksum (by omega) rfl (by omega)]
    rfl
  · intro w ipHeader header len hpayload h4 hlen
    obtain ⟨w', w'', hrun, hbytes, hrun', hmem'⟩ :=
      recomputeIcmp_spec (w.touch (ipHeader + 2) 2) len header
    refine ⟨w', w'', hrun, ?_, ?_, hrun', hmem'⟩
    · rw [receiveEchoRequest_stages, loadU16_bind, hpayload]
      exact bind_ok hrun
    · have hlength : (overlay (w.bytes header len) 0 [ICMP_ECHO_REPLY]).length = len := by
        rw [length_overlay]
        exact length_readN _ _ _
      rw [icmpCheck_apply, hbytes, touch_bytes,
        updateChecksum_checksum (by omega) rfl (by omega)]
      rfl

/-- Five bytes with the checksum field in the second word, and a packet that carries five. -/
theorem updateChecksum_verifies_five :
    (updateChecksum [0, 0, 0x12, 0x34, 0xab] 2 = [0, 0, 0x54, 0xff, 0xab] ∧
      internetChecksum [0, 0, 0x54, 0xff, 0xab] = 0) ∧
    ∃ w w' : World, payloadLength32 (w.u16 ⟨.rx, 16⟩) = 5 ∧
      receiveEchoRequest ⟨.rx, 14⟩ ⟨.rx, 34⟩ w = sendEchoReply ⟨.rx, 14⟩ w' ∧
      (icmpCheck ⟨.rx, 34⟩ 5 w').1 = .ok true := by
  have heq : updateChecksum [0, 0, 0x12, 0x34, 0xab] 2 = [0, 0, 0x54, 0xff, 0xab] := by
    decide +kernel
  have h := (updateChecksum_verifies.1 [0, 0, 0x12, 0x34, 0xab] 2 (by decide) rfl (by decide)).1
  obtain ⟨cache, -⟩ := arpInit_spec
  let w : World := ⟨fun _ i => if i = 16 then 25 else 0, [], netInterfaceStart 0 BROADCAST, cache, []⟩
  have hlen : payloadLength32 (w.u16 ⟨.rx, 16⟩) = 5 := by
    show payloadLength32 (le16 25 0) = 5
    decide
  obtain ⟨w', -, -, hrun, hcheck, -⟩ :=
    updateChecksum_verifies.2.2 w ⟨.rx, 14⟩ ⟨.rx, 34⟩ 5 hlen (by decide) (by decide)
  exact ⟨⟨heq, heq ▸ h⟩, w, w', hlen, hrun, hcheck⟩

/-! ## Verifying -/

/-- A change inside one word of a buffer that verifies is noticed unless the word is complemented
from all zeros or all ones, and not even then where no other byte is set. -/
theorem internetChecksum_wordError {l l' : List UInt8} {i : Nat} (hlen : l.length ≤ 131074)
    (h : internetChecksum l = 0) (he : WordError l l' i) :
    internetChecksum l' = 0 ↔ Complemented l l' i ∧ ∃ b ∈ l', b ≠ 0 := by
  have hsum := he.wordSum_eq
  have hlt := (wordAt l i).toNat_lt
  have hlt' := (wordAt l' i).toNat_lt
  have hne : (wordAt l' i).toNat ≠ (wordAt l i).toNat := fun heq =>
    he.wordAt_ne (UInt16.toNat_inj.mp heq)
  have hzero : ∀ v : UInt16, v = 0 ↔ v.toNat = 0 := fun v => UInt16.toNat_inj.symm
  have hones : ∀ v : UInt16, v = 0xffff ↔ v.toNat = 65535 := fun v => UInt16.toNat_inj.symm
  have hset : (∃ b ∈ l', b ≠ 0) ↔ wordSum l' ≠ 0 := by
    rw [ne_eq, wordSum_eq_zero]
    simp
  rw [internetChecksum_eq_zero hlen] at h
  rw [internetChecksum_eq_zero (by rw [he.length]; exact hlen), hset, Complemented, hzero, hones,
    hones, hzero]
  -- Both sums are multiples of `0xffff`, so the words differ by a multiple of it.
  omega

/-- The buffer with bit `b` of byte `j` inverted. -/
def flipBit (l : List UInt8) (j b : Nat) : List UInt8 :=
  l.set j (l.getD j 0 ^^^ UInt8.ofNat (2 ^ b))

theorem xor_bit_ne (x : UInt8) {b : Nat} (hb : b < 8) : x ^^^ UInt8.ofNat (2 ^ b) ≠ x := by
  intro h
  have hbit : UInt8.ofNat (2 ^ b) = 0 := by
    rw [← UInt8.zero_xor (a := UInt8.ofNat (2 ^ b)), ← UInt8.xor_self (a := x), UInt8.xor_assoc, h,
      UInt8.xor_self]
  have hbits : ∀ b < 8, UInt8.ofNat (2 ^ b) ≠ 0 := by decide
  exact hbits b hb hbit

theorem wordError_flipBit {l : List UInt8} {j b : Nat} (hj : j < l.length) (hb : b < 8) :
    WordError l (flipBit l j b) (j / 2) ∧ ¬ Complemented l (flipBit l j b) (j / 2) := by
  apply WordError.of_set hj
  rw [List.getD_eq_getElem _ _ hj]
  exact xor_bit_ne _ hb

section Detect

variable {l l' : List UInt8} {i : Nat}

theorem internetChecksum_detects (hlen : l.length ≤ 131074) (h : internetChecksum l = 0)
    (he : WordError l l' i) (hc : ¬ Complemented l l' i) : internetChecksum l' ≠ 0 := fun h' =>
  hc ((internetChecksum_wordError hlen h he).mp h').1

theorem internetChecksum_flipBit (hlen : l.length ≤ 131074) (h : internetChecksum l = 0) {j b : Nat}
    (hj : j < l.length) (hb : b < 8) : internetChecksum (flipBit l j b) ≠ 0 := by
  obtain ⟨he, hc⟩ := wordError_flipBit hj hb
  exact internetChecksum_detects hlen h he hc

end Detect

theorem icmpCheck_eq {w : World} {header : Ptr} {len : Nat} {b : Bool} :
    (icmpCheck header len w).1 = .ok b ↔ (internetChecksum (w.bytes header len) == 0) = b := by
  rw [icmpCheck_apply, Except.ok.injEq]

theorem icmpCheck_detects {w w' : World} {header : Ptr} {len : Nat} (hlen : len ≤ 65535)
    (hcheck : (icmpCheck header len w).1 = .ok true) :
    (∀ i, WordError (w.bytes header len) (w'.bytes header len) i →
      ¬ Complemented (w.bytes header len) (w'.bytes header len) i →
      (icmpCheck header len w').1 = .ok false) ∧
    ∀ j b, j < len → b < 8 → w'.bytes header len = flipBit (w.bytes header len) j b →
      (icmpCheck header len w').1 = .ok false := by
  have hlength : (w.bytes header len).length = len := length_readN _ _ _
  rw [icmpCheck_eq, beq_iff_eq] at hcheck
  refine ⟨fun i he hc => ?_, fun j b hj hb hflip => ?_⟩
  · rw [icmpCheck_eq, beq_eq_false_iff_ne]
    exact internetChecksum_detects (by omega) hcheck he hc
  · rw [icmpCheck_eq, beq_eq_false_iff_ne, hflip]
    exact internetChecksum_flipBit (by omega) hcheck (by omega) hb

/-- **Corruption inside one word is detected.** A buffer that verifies, changed inside one aligned
word or in the trailing odd byte, verifies exactly when the word went from `0x0000` to `0xffff` or
back and some byte is set; a single-bit error is never accepted. The same for the buffers that
`ip_header_check` and `icmp_check` sum. -/
theorem word_error_detected :
    (∀ (l l' : List UInt8) (i : Nat), l.length ≤ 65535 → internetChecksum l = 0 →
      WordError l l' i →
      (internetChecksum l' = 0 ↔ Complemented l l' i ∧ ∃ b ∈ l', b ≠ 0)) ∧
    (∀ (l : List UInt8) (j b : Nat), l.length ≤ 65535 → internetChecksum l = 0 → j < l.length →
      b < 8 → internetChecksum (flipBit l j b) ≠ 0) ∧
    (∀ (w w' : World) (header : Ptr), (ipHeaderCheck header w).1 = .ok true →
      (∀ i, WordError (w.bytes header 20) (w'.bytes header 20) i →
        ¬ Complemented (w.bytes header 20) (w'.bytes header 20) i →
        (ipHeaderCheck header w').1 = .ok false) ∧
      ∀ j b, j < 20 → b < 8 → w'.bytes header 20 = flipBit (w.bytes header 20) j b →
        (ipHeaderCheck header w').1 = .ok false) ∧
    (∀ (w w' : World) (header : Ptr) (len : Nat), len ≤ 65535 →
      (icmpCheck header len w).1 = .ok true →
      (∀ i, WordError (w.bytes header len) (w'.bytes header len) i →
        ¬ Complemented (w.bytes header len) (w'.bytes header len) i →
        (icmpCheck header len w').1 = .ok false) ∧
      ∀ j b, j < len → b < 8 → w'.bytes header len = flipBit (w.bytes header len) j b →
        (icmpCheck header len w').1 = .ok false) := by
  refine ⟨?_, ?_, ?_, ?_⟩
  · intro l l' i hlen h he
    exact internetChecksum_wordError (by omega) h he
  · intro l j b hlen h hj hb
    exact internetChecksum_flipBit (by omega) h hj hb
  · -- `ip_header_check` is the check of a 20-byte message.
    intro w w' header hcheck
    exact @icmpCheck_detects w w' header 20 (by decide) hcheck
  · intro w w' header len hlen hcheck
    exact icmpCheck_detects hlen hcheck

/-- A bit of `ff ff 00 00` and of a header of set bytes; the last word of `ff ff 00 00` may be
complemented. -/
theorem word_error_detected_four :
    internetChecksum (flipBit [0xff, 0xff, 0, 0] 0 3) ≠ 0 ∧
    internetChecksum [0xff, 0xff, 0xff, 0xff] = 0 ∧
    ∃ w w' : World, (ipHeaderCheck ⟨.rx, 14⟩ w).1 = .ok true ∧
      w'.bytes ⟨.rx, 14⟩ 20 = flipBit (w.bytes ⟨.rx, 14⟩ 20) 0 0 ∧
      (ipHeaderCheck ⟨.rx, 14⟩ w').1 = .ok false := by
  have hvalid : internetChecksum [0xff, 0xff, 0, 0] = 0 := by decide +kernel
  have hbit := word_error_detected.2.1 _ 0 3 (by decide) hvalid (by decide) (by decide)
  have herror : WordError [0xff, 0xff, 0, 0] [0xff, 0xff, 0xff, 0xff] 1 := by
    refine ⟨rfl, by decide, fun j hj => ?_⟩
    match j with
    | 0 | 1 => rfl
    | j + 4 => rfl
  have hword := (word_error_detected.1 _ _ 1 (by decide) hvalid herror).mpr
    ⟨Or.inl (by decide), 0xff, by decide, by decide⟩
  obtain ⟨cache, -⟩ := arpInit_spec
  let w : World := ⟨fun _ _ => 0xff, [], netInterfaceStart 0 BROADCAST, cache, []⟩
  have hheader : (ipHeaderCheck ⟨.rx, 14⟩ w).1 = .ok true := by
    show Except.ok (internetChecksum (readN (fun _ => 0xff) 14 20) == 0) = _
    have : (internetChecksum (readN (fun _ => 0xff) 14 20) == 0) = true := by decide +kernel
    rw [this]
  have hflip : (w.write ⟨.rx, 14⟩ [0xfe]).bytes ⟨.rx, 14⟩ 20 =
      flipBit (w.bytes ⟨.rx, 14⟩ 20) 0 0 := by
    show readN (writeL (fun _ => 0xff) 14 [0xfe]) 14 20 = flipBit (readN (fun _ => 0xff) 14 20) 0 0
    decide +kernel
  exact ⟨hbit, hword, w, w.write ⟨.rx, 14⟩ [0xfe], hheader, hflip,
    (word_error_detected.2.2.1 w _ ⟨.rx, 14⟩ hheader).2 0 0 (by decide) (by decide) hflip⟩

end TcpIp
