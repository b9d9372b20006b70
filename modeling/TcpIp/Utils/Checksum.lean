import Mathlib.Logic.Function.Iterate
import TcpIp.Utils.Protocols

/-!
# `sum16` is the sum of RFC 1071

RFC 1071 sums the big-endian 16-bit words of a buffer in one's complement. `sum16` sums the native
words of a little-endian machine in a `uint32_t` and folds the carries at the end, which gives the
same sum with its bytes swapped (`swap16_sum16`); a native store of it is in network order.

* `sum16Loop_append`: the accumulator after some rounds is that of the bytes read so far.
* `sum16Fold_rounds`: the folding loop ends after at most two rounds.
-/

namespace TcpIp

open Bytes OnesComplement

/-- The one's-complement sum of the big-endian words of a buffer. -/
def rfc1071Sum (l : List UInt8) : Nat := onesSum 65536 (beWords l)

/-- The bytes of a 16-bit value in network order. -/
def networkBytes16 (v : Nat) : List UInt8 := [UInt8.ofNat (v / 256), UInt8.ofNat (v % 256)]

/-- One round of the folding loop of `sum16`. -/
def sum16Round (sum : UInt32) : UInt32 := (sum &&& (0xffff : UInt32)) + (sum >>> 16)

/-- The summing loop goes on from the accumulator of the words read so far. -/
theorem sum16Loop_append {l : List UInt8} (h : l.length % 2 = 0) (l' : List UInt8) (sum : UInt32) :
    sum16Loop (l ++ l') sum = sum16Loop l' (sum16Loop l sum) := by
  induction l, sum using sum16Loop.induct with
  | case1 a b rest sum ih =>
    simp only [List.length_cons] at h
    rw [List.cons_append, List.cons_append, sum16Loop, sum16Loop, ih (by omega)]
  | case2 a sum => simp at h
  | case3 sum => rfl

/-- The accumulator is exact after every round of the summing loop, and at its end. -/
theorem sum16Loop_exact {l : List UInt8} (h : l.length ≤ 131074) :
    (sum16Loop l 0).toNat = wordSum l := by
  rw [sum16Loop_toNat, UInt32.toNat_zero, Nat.zero_add, wordSum_mod h]

theorem sum16Round_toNat (sum : UInt32) :
    (sum16Round sum).toNat = sum.toNat % 65536 + sum.toNat / 65536 := fold16_toNat sum

/-- The folding loop ends after at most two rounds. -/
theorem sum16Fold_rounds (sum : UInt32) :
    ∃ n ≤ 2, (∀ m < n, sum16Round^[m] sum >>> 16 ≠ 0) ∧ sum16Round^[n] sum >>> 16 = 0 ∧
      sum16Fold sum = sum16Round^[n] sum := by
  have hlt := sum.toNat_lt
  have h1 := sum16Round_toNat sum
  have h2 := sum16Round_toNat (sum16Round sum)
  have hstop : ∀ {s : UInt32}, s.toNat < 65536 → s >>> 16 = 0 := by
    intro s hs
    by_contra hne
    have := shift16_ne_zero.mp hne
    omega
  have hfold : ∀ {s : UInt32}, s >>> 16 ≠ 0 → sum16Fold s = sum16Fold (sum16Round s) := by
    intro s hs
    rw [sum16Fold, if_pos hs]
    rfl
  have hend : ∀ {s : UInt32}, s >>> 16 = 0 → sum16Fold s = s := by
    intro s hs
    rw [sum16Fold, if_neg (not_not.mpr hs)]
  by_cases h0 : sum >>> 16 = 0
  · exact ⟨0, by decide, nofun, h0, hend h0⟩
  · by_cases hr : sum16Round sum >>> 16 = 0
    · refine ⟨1, by decide, ?_, hr, (hfold h0).trans (hend hr)⟩
      intro m hm
      obtain rfl : m = 0 := by omega
      exact h0
    · have hge := shift16_ne_zero.mp hr
      have hr2 : sum16Round (sum16Round sum) >>> 16 = 0 := hstop (by omega)
      refine ⟨2, by decide, ?_, hr2, (hfold h0).trans ((hfold hr).trans (hend hr2))⟩
      intro m hm
      obtain rfl | rfl : m = 0 ∨ m = 1 := by omega
      · exact h0
      · exact hr

/-! ## Byte order -/

theorem swap16_toNat (v : UInt16) : (swap16 v).toNat = v.toNat / 256 + 256 * (v.toNat % 256) := by
  have hv := v.toNat_lt
  rw [swap16, le16_toNat, byte16_toNat, byte16_toNat]
  omega

/-- The native sum is the big-endian one with its bytes swapped. -/
theorem swap16_sum16 {l : List UInt8} (h : l.length ≤ 131074) :
    (swap16 (sum16 l)).toNat = rfc1071Sum l := by
  rw [swap16_toNat, sum16_toNat_mod, wordSum_mod h, rfc1071Sum, onesSum_beWords]

theorem wordSum_eq_zero (l : List UInt8) : wordSum l = 0 ↔ ∀ b ∈ l, b = 0 := by
  induction l using wordSum.induct with
  | case1 a b l ih =>
    have ha : a = 0 ↔ a.toNat = 0 := UInt8.toNat_inj.symm
    have hb : b = 0 ↔ b.toNat = 0 := UInt8.toNat_inj.symm
    rw [wordSum, List.forall_mem_cons, List.forall_mem_cons, ← ih, ha, hb]
    omega
  | case2 a =>
    have ha : a = 0 ↔ a.toNat = 0 := UInt8.toNat_inj.symm
    rw [wordSum, List.forall_mem_singleton, ha]
  | case3 => simp [wordSum]

theorem sum16_eq_zero {l : List UInt8} (h : l.length ≤ 131074) :
    sum16 l = 0 ↔ ∀ b ∈ l, b = 0 := by
  rw [← wordSum_eq_zero, ← endAround_eq_zero (by decide : 1 < 65536), ← UInt16.toNat_inj,
    sum16_toNat_mod, wordSum_mod h]
  rfl

/-- A native store of the checksum is in network order. -/
theorem bytes16_internetChecksum {l : List UInt8} (h : l.length ≤ 131074) :
    bytes16 (internetChecksum l) = networkBytes16 (65535 - rfc1071Sum l) := by
  have hle := endAround_le (by decide : 1 < 65536) (wordSum l)
  have hchecksum := internetChecksum_toNat h
  have hrfc : rfc1071Sum l = _ := onesSum_beWords l
  -- The two bytes of the native sum.
  obtain ⟨q, r, hq, hr, hs⟩ : ∃ q r, q < 256 ∧ r < 256 ∧ endAround 65536 (wordSum l) = 256 * q + r :=
    ⟨_, _, by omega, Nat.mod_lt _ (by decide), (Nat.div_add_mod _ 256).symm⟩
  have hnative : (internetChecksum l).toNat = 256 * (255 - q) + (255 - r) := by omega
  have hnetwork : 65535 - rfc1071Sum l = 256 * (255 - r) + (255 - q) := by omega
  have hparts : ∀ {a b : Nat}, b < 256 → (256 * a + b) / 256 = a ∧ (256 * a + b) % 256 = b := by
    intro a b hb
    omega
  have hlow : byte16 (internetChecksum l) 0 = UInt8.ofNat ((65535 - rfc1071Sum l) / 256) := by
    rw [byte16, hnative, hnetwork, (hparts (by omega)).1, ← UInt8.toNat_inj, UInt8.toNat_ofNat',
      UInt8.toNat_ofNat', Nat.pow_zero, Nat.div_one, (hparts (by omega)).2, Nat.mod_eq_of_lt (by omega)]
  have hhigh : byte16 (internetChecksum l) 1 = UInt8.ofNat ((65535 - rfc1071Sum l) % 256) := by
    rw [byte16, hnative, hnetwork, (hparts (by omega)).2, Nat.pow_one, (hparts (by omega)).1]
  rw [bytes16, networkBytes16, hlow, hhigh]

/-- **`sum16` is the RFC 1071 sum.** Up to 131074 bytes: the accumulator is exact after every round,
the folding loop ends, the result is the one's-complement sum of the big-endian words with its bytes
swapped and zero only for zero bytes, and `internet_checksum` is stored in network order. -/
theorem sum16_rfc1071 {l : List UInt8} (h : l.length ≤ 131074) :
    (∀ j, sum16Loop l 0 = sum16Loop (l.drop (2 * j)) (sum16Loop (l.take (2 * j)) 0) ∧
      (sum16Loop (l.take (2 * j)) 0).toNat = wordSum (l.take (2 * j))) ∧
    (sum16Loop l 0).toNat = wordSum l ∧
    (∃ n ≤ 2, (∀ m < n, sum16Round^[m] (sum16Loop l 0) >>> 16 ≠ 0) ∧
      sum16Round^[n] (sum16Loop l 0) >>> 16 = 0 ∧
      sum16 l = (sum16Round^[n] (sum16Loop l 0)).toUInt16) ∧
    (swap16 (sum16 l)).toNat = rfc1071Sum l ∧
    (sum16 l = 0 ↔ ∀ b ∈ l, b = 0) ∧
    bytes16 (internetChecksum l) = networkBytes16 (65535 - rfc1071Sum l) := by
  refine ⟨fun j => ⟨?_, ?_⟩, sum16Loop_exact h, ?_, swap16_sum16 h, sum16_eq_zero h,
    bytes16_internetChecksum h⟩
  · by_cases hj : 2 * j ≤ l.length
    · have heven : (l.take (2 * j)).length % 2 = 0 := by
        rw [List.length_take]
        omega
      rw [← sum16Loop_append heven, List.take_append_drop]
    · rw [List.take_of_length_le (by omega), List.drop_eq_nil_of_le (by omega)]
      rfl
  · apply sum16Loop_exact
    rw [List.length_take]
    omega
  · obtain ⟨n, hn, hbefore, hstop, hfold⟩ := sum16Fold_rounds (sum16Loop l 0)
    exact ⟨n, hn, hbefore, hstop, by rw [sum16, hfold]⟩

/-- An odd buffer whose sum folds once. -/
theorem sum16_rfc1071_three :
    (swap16 (sum16 [0xff, 0xff, 1])).toNat = 256 ∧ rfc1071Sum [0xff, 0xff, 1] = 256 := by
  have h := (sum16_rfc1071 (l := [0xff, 0xff, 1]) (by decide)).2.2.2.1
  have hsum : rfc1071Sum [0xff, 0xff, 1] = 256 := by decide
  exact ⟨h.trans hsum, hsum⟩

end TcpIp
