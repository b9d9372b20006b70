import TcpIp.Lib.Bits
import TcpIp.Protocols.Checksum

/-!
# What the checksum detects

A buffer verifies exactly when, read as one big-endian number, it is a nonzero multiple of `0xffff`
(`internetChecksum_value`). The words of the buffer do not matter for this, nor that its end may be
half a word: `0x10000` leaves the remainder 1, so the number is the sum of its words.

* `burst_error_detected`: an error inside 15 bits in a row, across words or not, is detected, and of
  those inside 16 bits all but one.
* `double_error_detected`: two flipped bits are detected unless one was set and the other was not, and
  they are a multiple of 16 places apart.
-/

namespace TcpIp

open Bytes OnesComplement Bits

/-! ## The buffer as a number -/

/-- `0x100` is its own inverse modulo `0xffff`. -/
theorem pow256_add_two (n : Nat) : 256 ^ (n + 2) ≡ 256 ^ n [MOD 65535] := by
  have h := (show 256 ^ 2 ≡ 1 [MOD 65535] by decide).mul_left (256 ^ n)
  rwa [← Nat.pow_add, Nat.mul_one] at h

/-- The little-endian words have the sum of the number, with its bytes swapped if there is a word for
each two bytes. -/
theorem wordSum_modEq_value (l : List UInt8) :
    wordSum l ≡ 256 ^ (l.length + 1) * value (ofBytes l) [MOD 65535] := by
  induction l using wordSum.induct with
  | case1 a b l ih =>
    rw [wordSum, value_ofBytes_cons, value_ofBytes_cons, List.length_cons, List.length_cons]
    have heven : ∀ k, 256 ^ (2 * k) ≡ 1 [MOD 65535] := by
      intro k
      rw [Nat.pow_mul]
      simpa using (show 256 ^ 2 ≡ 1 [MOD 65535] by decide).pow k
    have ha : 256 ^ (l.length + 1 + 1 + 1) * (a.toNat * 256 ^ (l.length + 1)) ≡ a.toNat
        [MOD 65535] := by
      calc 256 ^ (l.length + 1 + 1 + 1) * (a.toNat * 256 ^ (l.length + 1))
        _ = 256 ^ (2 * (l.length + 2)) * a.toNat := by ring
        _ ≡ 1 * a.toNat [MOD 65535] := (heven _).mul_right _
        _ = a.toNat := Nat.one_mul _
    have hb : 256 ^ (l.length + 1 + 1 + 1) * (b.toNat * 256 ^ l.length) ≡ 256 * b.toNat
        [MOD 65535] := by
      calc 256 ^ (l.length + 1 + 1 + 1) * (b.toNat * 256 ^ l.length)
        _ = 256 ^ (2 * (l.length + 1)) * (256 * b.toNat) := by ring
        _ ≡ 1 * (256 * b.toNat) [MOD 65535] := (heven _).mul_right _
        _ = 256 * b.toNat := Nat.one_mul _
    have hl : 256 ^ (l.length + 1 + 1 + 1) * value (ofBytes l) ≡ wordSum l [MOD 65535] :=
      ((pow256_add_two (l.length + 1)).mul_right _).trans ih.symm
    rw [Nat.mul_add, Nat.mul_add, ← Nat.add_assoc]
    exact ((ha.add hb).add hl).symm
  | case2 a =>
    have h := value_ofBytes_cons a []
    simp only [List.length_nil, Nat.pow_zero, Nat.mul_one, ofBytes, List.flatMap_nil, value_nil,
      Nat.add_zero] at h
    rw [wordSum, List.length_singleton, ofBytes, h]
    simpa using ((show 256 ^ 2 ≡ 1 [MOD 65535] by decide).mul_right a.toNat).symm
  | case3 => rfl

theorem value_ofBytes_eq_zero (l : List UInt8) : value (ofBytes l) = 0 ↔ ∀ b ∈ l, b = 0 := by
  induction l with
  | nil => simp [ofBytes]
  | cons b l ih =>
    rw [value_ofBytes_cons, List.forall_mem_cons, ← ih, Nat.add_eq_zero_iff, Nat.mul_eq_zero,
      ← UInt8.toNat_inj, UInt8.toNat_zero]
    simp

/-- A buffer verifies exactly when its number is a nonzero multiple of `0xffff`. -/
theorem internetChecksum_value {l : List UInt8} (h : l.length ≤ 131074) :
    internetChecksum l = 0 ↔ (∃ b ∈ l, b ≠ 0) ∧ 65535 ∣ value (ofBytes l) := by
  have hdvd : 65535 ∣ wordSum l ↔ 65535 ∣ value (ofBytes l) := by
    rw [(wordSum_modEq_value l).dvd_iff (Nat.dvd_refl 65535)]
    exact Nat.Coprime.dvd_mul_left (Nat.Coprime.pow_right _ (by decide))
  rw [internetChecksum_eq_zero h, ← Nat.dvd_iff_mod_eq_zero, hdvd, ne_eq, wordSum_eq_zero]
  simp

/-! ## Errors -/

/-- The messages differ, inside `n` bits in a row. -/
def BurstError (n : Nat) (l l' : List UInt8) : Prop :=
  ∃ pre xs ys post, xs.length ≤ n ∧ xs.length = ys.length ∧ xs ≠ ys ∧
    ofBytes l = pre ++ xs ++ post ∧ ofBytes l' = pre ++ ys ++ post

/-- The bits of one word, all zeros in one message and all ones in the other. The word need not be
aligned. -/
def BurstComplement (l l' : List UInt8) : Prop :=
  ∃ pre post, ∃ b : Bool, ofBytes l = pre ++ List.replicate 16 b ++ post ∧
    ofBytes l' = pre ++ List.replicate 16 (!b) ++ post

/-- Two bits are flipped, `gap` bits apart. -/
def DoubleError (x y : Bool) (gap : Nat) (l l' : List UInt8) : Prop :=
  ∃ pre mid post, mid.length = gap ∧ ofBytes l = pre ++ [x] ++ mid ++ [y] ++ post ∧
    ofBytes l' = pre ++ [!x] ++ mid ++ [!y] ++ post

section Errors

variable {l l' : List UInt8}

theorem length_of_bits (h : (ofBytes l).length = (ofBytes l').length) : l.length = l'.length := by
  rw [length_ofBytes, length_ofBytes] at h
  omega

/-- Two numbers of at most 16 bits, not equal but with the same remainder. -/
theorem modEq_of_lt {x y : Nat} (hx : x < 65536) (hy : y < 65536) (hne : x ≠ y) :
    x ≡ y [MOD 65535] ↔ x = 0 ∧ y = 65535 ∨ x = 65535 ∧ y = 0 := by
  unfold Nat.ModEq
  omega

theorem eq_replicate_of_value {bits : List Bool} (hlen : bits.length ≤ 16)
    (h : value bits = 65535) : bits = List.replicate 16 true := by
  have hlt := value_lt bits
  have hfull : bits.length = 16 := by
    by_contra hne
    have hpow := Nat.pow_le_pow_right (show 0 < 2 by decide) (show bits.length ≤ 15 by omega)
    omega
  exact (value_inj (by rw [hfull, List.length_replicate])).mp
    (h.trans (value_replicate_true 16).symm)

theorem eq_replicate_of_value_zero {bits : List Bool} (hlen : bits.length = 16)
    (h : value bits = 0) : bits = List.replicate 16 false :=
  (value_inj (by rw [hlen, List.length_replicate])).mp (by rw [h, value_replicate_false])

/-- The exact condition for an error inside 16 bits to go undetected. -/
theorem internetChecksum_burst (hlen : l.length ≤ 131074) (h : internetChecksum l = 0)
    (hburst : BurstError 16 l l') :
    internetChecksum l' = 0 ↔ BurstComplement l l' ∧ ∃ b ∈ l', b ≠ 0 := by
  obtain ⟨pre, xs, ys, post, hn, hxy, hne, hl, hl'⟩ := hburst
  have hlength : l.length = l'.length := length_of_bits (by rw [hl, hl']; simp [hxy])
  have hdvd := ((internetChecksum_value hlen).mp h).2
  rw [hl] at hdvd
  have hpow := Nat.pow_le_pow_right (show 0 < 2 by decide) hn
  have hx := value_lt xs
  have hy := value_lt ys
  rw [← hxy] at hy
  rw [internetChecksum_value (by omega), hl', dvd_replace (by decide) hxy hdvd,
    modEq_of_lt (by omega) (by omega) (fun heq => hne ((value_inj hxy).mp heq)), and_comm]
  refine and_congr_left fun _ => ⟨fun hword => ?_, ?_⟩
  · rcases hword with ⟨hx0, hy1⟩ | ⟨hx1, hy0⟩
    · have hys := eq_replicate_of_value (by omega) hy1
      have hxs := eq_replicate_of_value_zero (by rw [hxy, hys, List.length_replicate]) hx0
      exact ⟨pre, post, false, by rw [hl, hxs], by rw [hl', hys]; rfl⟩
    · have hxs := eq_replicate_of_value hn hx1
      have hys := eq_replicate_of_value_zero (by rw [← hxy, hxs, List.length_replicate]) hy0
      exact ⟨pre, post, true, by rw [hl, hxs], by rw [hl', hys]; rfl⟩
  · -- The complemented word changes the number by a multiple of `0xffff`, wherever it is.
    rintro ⟨pre', post', b, hb, hb'⟩
    have hverifies : 65535 ∣ value (pre ++ ys ++ post) := by
      rw [← hl', hb']
      rw [← hl, hb] at hdvd
      refine (dvd_replace (by decide) (by simp) hdvd).mpr ?_
      cases b <;> decide
    have hsame := (dvd_replace (by decide) hxy hdvd).mp hverifies
    exact (modEq_of_lt (by omega) (by omega) (fun heq => hne ((value_inj hxy).mp heq))).mp hsame

/-- An error inside 15 bits is detected. -/
theorem internetChecksum_burst_ne (hlen : l.length ≤ 131074) (h : internetChecksum l = 0)
    (hburst : BurstError 15 l l') : internetChecksum l' ≠ 0 := by
  obtain ⟨pre, xs, ys, post, hn, hxy, hne, hl, hl'⟩ := hburst
  have hlength : l.length = l'.length := length_of_bits (by rw [hl, hl']; simp [hxy])
  have hdvd := ((internetChecksum_value hlen).mp h).2
  rw [hl] at hdvd
  have hpow := Nat.pow_le_pow_right (show 0 < 2 by decide) hn
  have hx := value_lt xs
  have hy := value_lt ys
  rw [← hxy] at hy
  intro h'
  have hdvd' := ((internetChecksum_value (by omega)).mp h').2
  rw [hl', dvd_replace (by decide) hxy hdvd,
    modEq_of_lt (by omega) (by omega) (fun heq => hne ((value_inj hxy).mp heq))] at hdvd'
  omega

/-- `2 ^ 16` leaves the remainder 1. -/
theorem pow_two_mod (k : Nat) : 2 ^ k % 65535 = 2 ^ (k % 16) := by
  have hsplit : 2 ^ k = (2 ^ 16) ^ (k / 16) * 2 ^ (k % 16) := by
    rw [← Nat.pow_mul, ← Nat.pow_add, Nat.div_add_mod]
  have hone : (2 ^ 16) ^ (k / 16) ≡ 1 [MOD 65535] := by
    simpa using (show 2 ^ 16 ≡ 1 [MOD 65535] by decide).pow (k / 16)
  have hlt : 2 ^ (k % 16) ≤ 2 ^ 15 := Nat.pow_le_pow_right (by decide) (by omega)
  have hmod := hone.mul_right (2 ^ (k % 16))
  rw [← hsplit, Nat.one_mul, Nat.ModEq] at hmod
  rw [hmod]
  exact Nat.mod_eq_of_lt (by omega)

/-- Two flipped bits: the first one counts for `p`, which is `r` modulo `0xffff`. -/
theorem flips_modEq (x y : Bool) {p r v : Nat} (hp : p % 65535 = r) (hpos : 0 < r)
    (hle : r ≤ 32768) :
    x.toNat * p + 2 * v + y.toNat ≡ (!x).toNat * p + 2 * v + (!y).toNat [MOD 65535] ↔
      x ≠ y ∧ r = 1 := by
  unfold Nat.ModEq
  cases x <;> cases y <;> simp <;> omega

/-- The bits from the first flipped one to the second. -/
theorem value_flips (x y : Bool) (mid : List Bool) :
    value ([x] ++ mid ++ [y]) = x.toNat * 2 ^ (mid.length + 1) + 2 * value mid + y.toNat := by
  have hbit : ∀ c : Bool, value [c] = c.toNat := by decide
  rw [value_append, value_append, hbit, hbit, List.length_singleton]
  ring

/-- Unless both bits were set, the buffer is not empty after the flips. -/
theorem exists_ne_of_flips {x y : Bool} (hxy : x ≠ y) {pre mid post : List Bool}
    (hl' : ofBytes l' = pre ++ ([!x] ++ mid ++ [!y]) ++ post) : ∃ b ∈ l', b ≠ 0 := by
  by_contra hzero
  have hall : ∀ b ∈ l', b = 0 := fun b hb => by
    by_contra hb0
    exact hzero ⟨b, hb, hb0⟩
  have hv := (value_ofBytes_eq_zero l').mpr hall
  have hflips : 0 < value ([!x] ++ mid ++ [!y]) := by
    have hpow := Nat.two_pow_pos (mid.length + 1)
    rw [value_flips]
    cases x <;> cases y <;> simp at hxy ⊢
  rw [hl', value_append, value_append] at hv
  have hpos := Nat.mul_pos (Nat.add_pos_right (value pre * 2 ^ ([!x] ++ mid ++ [!y]).length) hflips)
    (Nat.two_pow_pos post.length)
  omega

/-- The exact condition for two flipped bits to go undetected. -/
theorem internetChecksum_double (hlen : l.length ≤ 131074) (h : internetChecksum l = 0)
    {x y : Bool} {gap : Nat} (hdouble : DoubleError x y gap l l') :
    internetChecksum l' = 0 ↔ x ≠ y ∧ gap % 16 = 15 := by
  obtain ⟨pre, mid, post, rfl, hl, hl'⟩ := hdouble
  have hassoc : ∀ a b : Bool, pre ++ [a] ++ mid ++ [b] ++ post = pre ++ ([a] ++ mid ++ [b]) ++ post :=
    fun a b => by simp only [List.append_assoc]
  have hlength : l.length = l'.length := length_of_bits (by rw [hl, hl']; simp)
  have hdvd := ((internetChecksum_value hlen).mp h).2
  rw [hl, hassoc] at hdvd
  rw [hassoc] at hl'
  have hle : 2 ^ ((mid.length + 1) % 16) ≤ 2 ^ 15 := Nat.pow_le_pow_right (by decide) (by omega)
  rw [internetChecksum_value (by omega), hl', dvd_replace (by decide) (by simp) hdvd, value_flips,
    value_flips, flips_modEq x y (pow_two_mod _) (Nat.two_pow_pos _) hle, Nat.pow_eq_one]
  constructor
  · rintro ⟨-, hxy, hgap⟩
    exact ⟨hxy, by omega⟩
  · rintro ⟨hxy, hgap⟩
    exact ⟨exists_ne_of_flips hxy hl', hxy, Or.inr (by omega)⟩

end Errors

/-! ## The checks -/

/-- **Bursts are detected.** A buffer that verifies does not after an error inside 15 bits in a row,
at any place, and `ip_header_check` and `icmp_check` refuse it. After an error inside 16 bits it does
exactly if 16 equal bits were complemented and some byte is set. -/
theorem burst_error_detected :
    (∀ (l l' : List UInt8), l.length ≤ 65535 → internetChecksum l = 0 → BurstError 15 l l' →
      internetChecksum l' ≠ 0) ∧
    (∀ (l l' : List UInt8), l.length ≤ 65535 → internetChecksum l = 0 → BurstError 16 l l' →
      (internetChecksum l' = 0 ↔ BurstComplement l l' ∧ ∃ b ∈ l', b ≠ 0)) ∧
    (∀ (w w' : World) (header : Ptr), (ipHeaderCheck header w).1 = .ok true →
      BurstError 15 (w.bytes header 20) (w'.bytes header 20) →
      (ipHeaderCheck header w').1 = .ok false) ∧
    (∀ (w w' : World) (header : Ptr) (len : Nat), len ≤ 65535 →
      (icmpCheck header len w).1 = .ok true →
      BurstError 15 (w.bytes header len) (w'.bytes header len) →
      (icmpCheck header len w').1 = .ok false) := by
  have hcheck : ∀ (w w' : World) (header : Ptr) (len : Nat), len ≤ 65535 →
      (icmpCheck header len w).1 = .ok true →
      BurstError 15 (w.bytes header len) (w'.bytes header len) →
      (icmpCheck header len w').1 = .ok false := by
    intro w w' header len hlen h hburst
    have hlength : (w.bytes header len).length = len := length_readN _ _ _
    rw [icmpCheck_eq, beq_iff_eq] at h
    rw [icmpCheck_eq, beq_eq_false_iff_ne]
    exact internetChecksum_burst_ne (by omega) h hburst
  refine ⟨?_, ?_, ?_, hcheck⟩
  · intro l l' hlen h hburst
    exact internetChecksum_burst_ne (by omega) h hburst
  · intro l l' hlen h hburst
    exact internetChecksum_burst (by omega) h hburst
  · intro w w' header h hburst
    exact hcheck w w' header 20 (by decide) h hburst

/-- Bursts that no word contains: four bits of a header of set bytes, eight bits of `ff ff 00 00`, and
the sixteen zeros of `ff 00 00 ff`, which may be complemented. -/
theorem burst_error_detected_unaligned :
    internetChecksum [0xff, 0xf0, 0xf0, 0] ≠ 0 ∧ internetChecksum [0xff, 0xff, 0xff, 0xff] = 0 ∧
    ∃ w w' : World, (ipHeaderCheck ⟨.rx, 14⟩ w).1 = .ok true ∧
      w'.bytes ⟨.rx, 14⟩ 20 = [0xfc, 0x3f] ++ (w.bytes ⟨.rx, 14⟩ 20).drop 2 ∧
      (ipHeaderCheck ⟨.rx, 14⟩ w').1 = .ok false := by
  have hfour : internetChecksum [0xff, 0xff, 0, 0] = 0 := by decide +kernel
  have hword : internetChecksum [0xff, 0, 0, 0xff] = 0 := by decide +kernel
  have height : BurstError 15 [0xff, 0xff, 0, 0] [0xff, 0xf0, 0xf0, 0] :=
    ⟨(ofBytes [0xff, 0xff, 0, 0]).take 12, [true, true, true, true, false, false, false, false],
      [false, false, false, false, true, true, true, true],
      (ofBytes [0xff, 0xff, 0, 0]).drop 20, by decide, by decide, by decide, by decide, by decide⟩
  have hsixteen : BurstError 16 [0xff, 0, 0, 0xff] [0xff, 0xff, 0xff, 0xff] :=
    ⟨List.replicate 8 true, List.replicate 16 false, List.replicate 16 true,
      List.replicate 8 true, by decide, by decide, by decide, by decide, by decide⟩
  have hcomplement : BurstComplement [0xff, 0, 0, 0xff] [0xff, 0xff, 0xff, 0xff] :=
    ⟨List.replicate 8 true, List.replicate 8 true, false, by decide, by decide⟩
  obtain ⟨cache, -⟩ := arpInit_spec
  let w : World := ⟨fun _ _ => 0xff, [], netInterfaceStart 0 BROADCAST, cache, []⟩
  have hheader : (ipHeaderCheck ⟨.rx, 14⟩ w).1 = .ok true := by
    show Except.ok (internetChecksum (readN (fun _ => 0xff) 14 20) == 0) = _
    have : (internetChecksum (readN (fun _ => 0xff) 14 20) == 0) = true := by decide +kernel
    rw [this]
  have hbytes : (w.write ⟨.rx, 14⟩ [0xfc, 0x3f]).bytes ⟨.rx, 14⟩ 20 =
      [0xfc, 0x3f] ++ (w.bytes ⟨.rx, 14⟩ 20).drop 2 := by
    show readN (writeL (fun _ => 0xff) 14 [0xfc, 0x3f]) 14 20 =
      [0xfc, 0x3f] ++ (readN (fun _ => 0xff) 14 20).drop 2
    decide +kernel
  have hfirst : w.bytes ⟨.rx, 14⟩ 20 = List.replicate 20 0xff := by
    show readN (fun _ => 0xff) 14 20 = List.replicate 20 0xff
    decide +kernel
  have hburst : BurstError 15 (w.bytes ⟨.rx, 14⟩ 20)
      ((w.write ⟨.rx, 14⟩ [0xfc, 0x3f]).bytes ⟨.rx, 14⟩ 20) := by
    rw [hbytes, hfirst]
    exact ⟨List.replicate 6 true, List.replicate 4 true, List.replicate 4 false,
      List.replicate 150 true, by decide, by decide, by decide, by decide +kernel,
      by decide +kernel⟩
  exact ⟨burst_error_detected.1 _ _ (by decide) hfour height,
    (burst_error_detected.2.1 _ _ (by decide) hword hsixteen).mpr
      ⟨hcomplement, 0xff, by decide, by decide⟩,
    w, w.write ⟨.rx, 14⟩ [0xfc, 0x3f], hheader, hbytes,
    burst_error_detected.2.2.1 w _ ⟨.rx, 14⟩ hheader hburst⟩

/-- **Two flipped bits.** A buffer that verifies, with two of its bits flipped, verifies exactly if
one of them was set and the other was not, and they are a multiple of 16 places apart. -/
theorem double_error_detected {l l' : List UInt8} (hlen : l.length ≤ 65535)
    (h : internetChecksum l = 0) {x y : Bool} {gap : Nat} (hdouble : DoubleError x y gap l l') :
    internetChecksum l' = 0 ↔ x ≠ y ∧ gap % 16 = 15 :=
  internetChecksum_double (by omega) h hdouble

/-- The first bits of the two words of `ff ff 00 00` are exchanged; the first and the last bit are
flipped. -/
theorem double_error_detected_four :
    internetChecksum [0x7f, 0xff, 0x80, 0] = 0 ∧ internetChecksum [0x7f, 0xff, 0, 1] ≠ 0 := by
  have hvalid : internetChecksum [0xff, 0xff, 0, 0] = 0 := by decide +kernel
  have hswapped : DoubleError true false 15 [0xff, 0xff, 0, 0] [0x7f, 0xff, 0x80, 0] :=
    ⟨[], List.replicate 15 true, List.replicate 15 false, by decide, by decide, by decide⟩
  have hends : DoubleError true false 30 [0xff, 0xff, 0, 0] [0x7f, 0xff, 0, 1] :=
    ⟨[], List.replicate 15 true ++ List.replicate 15 false, [], by decide, by decide, by decide⟩
  refine ⟨(double_error_detected (by decide) hvalid hswapped).mpr (by decide), fun h => ?_⟩
  exact absurd ((double_error_detected (by decide) hvalid hends).mp h) (by decide)

end TcpIp
