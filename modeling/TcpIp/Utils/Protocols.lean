import Mathlib.Tactic.Common
import TcpIp.Lib.Bytes
import TcpIp.Lib.OnesComplement

/-!
# The Internet checksum (`src/utils/protocols.c`, `src/utils/protocols.h`)

`sum16` adds the native (little-endian) 16-bit words of a buffer in a `uint32_t` and folds the
carries: the result is the end-around-carry sum of the accumulator (`sum16_toNat_mod`), which does
not wrap up to 131074 bytes. `internet_checksum` is its complement.

* `internetChecksum_eq_zero`: a buffer verifies when its word sum is a nonzero multiple of `0xffff`.
* `exists_set_internetChecksum_ne`: no byte of a buffer that verifies is without influence.
* `internetChecksum_patch`: storing the checksum of a buffer, computed with a zero checksum field,
  into that field makes the buffer verify.
-/

namespace TcpIp

open Bytes OnesComplement

/-- The summing loop of `sum16`. -/
def sum16Loop : List UInt8 → UInt32 → UInt32
  | a :: b :: rest, sum => sum16Loop rest (sum + (le16 a b).toUInt32)
  | [a], sum => sum + a.toUInt32
  | [], sum => sum

theorem shift16_ne_zero {sum : UInt32} : sum >>> 16 ≠ 0 ↔ 65536 ≤ sum.toNat := by
  rw [ne_eq, ← UInt32.toNat_inj, UInt32.toNat_shiftRight]
  simp only [UInt32.reduceToNat, Nat.shiftRight_eq_div_pow, Nat.reduceMod, Nat.reducePow]
  omega

/-- One round of the folding loop does not overflow. -/
theorem fold16_toNat (sum : UInt32) : ((sum &&& (0xffff : UInt32)) + (sum >>> 16)).toNat =
    sum.toNat % 65536 + sum.toNat / 65536 := by
  have hlow : sum.toNat &&& 65535 = sum.toNat % 65536 := Nat.and_two_pow_sub_one_eq_mod _ 16
  have hlt := sum.toNat_lt
  rw [UInt32.toNat_add, UInt32.toNat_and, UInt32.toNat_shiftRight]
  simp only [UInt32.reduceToNat, hlow, Nat.shiftRight_eq_div_pow, Nat.reduceMod, Nat.reducePow]
  omega

/-- The folding loop of `sum16`. -/
def sum16Fold (sum : UInt32) : UInt32 :=
  if sum >>> 16 ≠ 0 then sum16Fold ((sum &&& (0xffff : UInt32)) + (sum >>> 16)) else sum
termination_by sum.toNat
decreasing_by
  have := shift16_ne_zero.mp (by assumption)
  rw [fold16_toNat]
  omega

/-- `sum16` of the bytes it is given. -/
def sum16 (bytes : List UInt8) : UInt16 := (sum16Fold (sum16Loop bytes 0)).toUInt16

def internetChecksum (bytes : List UInt8) : UInt16 := ~~~ sum16 bytes

theorem sum16Fold_toNat (sum : UInt32) : (sum16Fold sum).toNat = endAround 65536 sum.toNat := by
  induction sum using sum16Fold.induct with
  | case1 sum h ih =>
    unfold sum16Fold
    rw [if_pos h, ih, fold16_toNat]
    conv => rhs; rw [endAround, if_pos ⟨by decide, shift16_ne_zero.mp h⟩]
  | case2 sum h =>
    have hlt : ¬ 65536 ≤ sum.toNat := fun hge => h (shift16_ne_zero.mpr hge)
    unfold sum16Fold
    rw [if_neg h, endAround, if_neg (by omega)]

/-- The accumulator is the word sum, reduced modulo `2 ^ 32`. -/
theorem sum16Loop_toNat (l : List UInt8) (sum : UInt32) :
    (sum16Loop l sum).toNat = (sum.toNat + wordSum l) % 2 ^ 32 := by
  induction l, sum using sum16Loop.induct with
  | case1 a b rest sum ih =>
    unfold sum16Loop
    rw [ih, UInt32.toNat_add, UInt16.toNat_toUInt32, le16_toNat, wordSum]
    omega
  | case2 a sum => rw [sum16Loop, UInt32.toNat_add, UInt8.toNat_toUInt32, wordSum]
  | case3 sum =>
    have := sum.toNat_lt
    unfold sum16Loop
    rw [wordSum, Nat.add_zero, Nat.mod_eq_of_lt this]

/-- `sum16` is the end-around-carry sum of the accumulator. -/
theorem sum16_toNat_mod (l : List UInt8) :
    (sum16 l).toNat = endAround 65536 (wordSum l % 2 ^ 32) := by
  have hfold := endAround_le (by decide : 1 < 65536) (wordSum l % 2 ^ 32)
  rw [sum16, UInt32.toNat_toUInt16, sum16Fold_toNat, sum16Loop_toNat, UInt32.toNat_zero,
    Nat.zero_add, Nat.mod_eq_of_lt (by omega)]

/-- The accumulator does not wrap up to 131074 bytes. -/
theorem wordSum_mod {l : List UInt8} (h : l.length ≤ 131074) : wordSum l % 2 ^ 32 = wordSum l := by
  have hle := wordSum_le l
  exact Nat.mod_eq_of_lt (by omega)

theorem internetChecksum_toNat {l : List UInt8} (h : l.length ≤ 131074) :
    (internetChecksum l).toNat = 65535 - endAround 65536 (wordSum l) := by
  unfold internetChecksum
  rw [UInt16.toNat_not, sum16_toNat_mod, wordSum_mod h]
  rfl

/-- A buffer verifies exactly when the accumulator is a nonzero multiple of `0xffff`. -/
theorem internetChecksum_eq_zero_mod (l : List UInt8) :
    internetChecksum l = 0 ↔ wordSum l % 2 ^ 32 ≠ 0 ∧ wordSum l % 2 ^ 32 % 65535 = 0 := by
  have hfold := endAround_le (by decide : 1 < 65536) (wordSum l % 2 ^ 32)
  rw [← endAround_eq_max (by decide : 1 < 65536) (wordSum l % 2 ^ 32), ← UInt16.toNat_inj,
    internetChecksum, UInt16.toNat_not, sum16_toNat_mod, UInt16.toNat_zero]
  show 65535 - _ = 0 ↔ _
  omega

/-- A buffer verifies exactly when its word sum is a nonzero multiple of `0xffff`. -/
theorem internetChecksum_eq_zero {l : List UInt8} (h : l.length ≤ 131074) :
    internetChecksum l = 0 ↔ wordSum l ≠ 0 ∧ wordSum l % 65535 = 0 := by
  rw [internetChecksum_eq_zero_mod, wordSum_mod h]

/-- Any byte of a buffer that verifies can be changed such that it does not. -/
theorem exists_set_internetChecksum_ne {l : List UInt8} (h : internetChecksum l = 0) {i : Nat}
    (hi : i < l.length) : ∃ b, internetChecksum (l.set i b) ≠ 0 := by
  -- A step of 2 is not absorbed by the modulus, also where the accumulator wraps.
  have ha := l[i].toNat_lt
  let b : UInt8 := UInt8.ofNat (if l[i].toNat < 254 then l[i].toNat + 2 else l[i].toNat - 2)
  have hb : b.toNat = if l[i].toNat < 254 then l[i].toNat + 2 else l[i].toNat - 2 := by
    show (UInt8.ofNat _).toNat = _
    rw [UInt8.toNat_ofNat', Nat.mod_eq_of_lt (by split <;> omega)]
  have hset := wordSum_set l hi b
  have hweight : byteWeight i = 1 ∨ byteWeight i = 256 := by
    unfold byteWeight
    split
    · exact Or.inl rfl
    · exact Or.inr rfl
  refine ⟨b, fun h' => ?_⟩
  rw [internetChecksum_eq_zero_mod] at h h'
  rw [hb] at hset
  obtain ⟨-, h⟩ := h
  obtain ⟨-, h'⟩ := h'
  rcases hweight with hw | hw
  · rw [hw] at hset
    split at hset <;> omega
  · rw [hw] at hset
    split at hset <;> omega

/-- A buffer whose checksum field was zeroed and then filled with the checksum verifies. -/
theorem internetChecksum_patch {pre post : List UInt8} (heven : pre.length % 2 = 0)
    (h : pre.length + post.length + 2 ≤ 131074) :
    internetChecksum (pre ++ (bytes16 (internetChecksum (pre ++ ([0, 0] ++ post))) ++ post)) = 0 := by
  have hw : ∀ v : UInt16, wordSum (pre ++ (bytes16 v ++ post)) =
      wordSum (pre ++ ([0, 0] ++ post)) + v.toNat := fun v => by
    rw [wordSum_append heven, wordSum_append heven, wordSum_append (by simp), wordSum_append (by rfl),
      wordSum_bytes16]
    simp only [wordSum, UInt8.toNat_zero]
    omega
  have hlen : ∀ v : UInt16, (pre ++ (bytes16 v ++ post)).length ≤ 131074 := fun v => by
    simp only [List.length_append, length_bytes16]; omega
  have hfold := endAround_complement (by decide : 1 < 65536) (wordSum (pre ++ ([0, 0] ++ post)))
  rw [internetChecksum_eq_zero (hlen _), ← endAround_eq_max (by decide : 1 < 65536), hw,
    internetChecksum_toNat (by
      simp only [List.length_append, List.length_cons, List.length_nil]; omega)]
  exact hfold

end TcpIp
