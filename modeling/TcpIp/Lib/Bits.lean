import Mathlib.Data.Nat.Digits.Lemmas
import Mathlib.Data.Nat.ModEq

/-!
# Messages as numbers

A message is the number with its bits, in the order of transmission.

* `value_append`, `value_lt`, `value_inj`: bits that follow one another, and that the number
  determines them.
* `value_ofBytes_cons`: the number of a message from its bytes.
* `dvd_replace`: for an odd `m` that divides a message, whether it divides the message with some bits
  in a row replaced depends on these bits alone, wherever they are.
-/

namespace Bits

/-- The bits of a byte, the most significant one first. -/
def ofByte (b : UInt8) : List Bool := (List.range 8).map fun i => b.toNat.testBit (7 - i)

/-- The bits of a message. -/
def ofBytes (l : List UInt8) : List Bool := l.flatMap ofByte

/-- The number with these bits. -/
def value (bits : List Bool) : Nat := Nat.ofDigits 2 (bits.reverse.map Bool.toNat)

variable {xs ys pre post : List Bool}

@[simp] theorem length_ofByte (b : UInt8) : (ofByte b).length = 8 := by
  simp [ofByte]

@[simp] theorem length_ofBytes (l : List UInt8) : (ofBytes l).length = 8 * l.length := by
  induction l with
  | nil => rfl
  | cons b l ih =>
    rw [ofBytes, List.flatMap_cons, List.length_append, length_ofByte, List.length_cons]
    rw [ofBytes] at ih
    omega

@[simp] theorem value_nil : value [] = 0 := rfl

theorem value_append (xs ys : List Bool) : value (xs ++ ys) = value xs * 2 ^ ys.length + value ys := by
  rw [value, List.reverse_append, List.map_append, Nat.ofDigits_append, List.length_map,
    List.length_reverse, Nat.mul_comm, Nat.add_comm]
  rfl

theorem digit_lt (bits : List Bool) : ∀ d ∈ bits.reverse.map Bool.toNat, d < 2 := by
  intro d hd
  obtain ⟨b, -, rfl⟩ := List.mem_map.mp hd
  exact b.toNat_lt

theorem value_lt (bits : List Bool) : value bits < 2 ^ bits.length := by
  have h := Nat.ofDigits_lt_base_pow_length Nat.one_lt_two (digit_lt bits)
  rwa [List.length_map, List.length_reverse] at h

/-- Bits of one length are determined by their number. -/
theorem value_inj (hlen : xs.length = ys.length) : value xs = value ys ↔ xs = ys := by
  refine ⟨fun h => ?_, fun h => by rw [h]⟩
  have hdigits := Nat.ofDigits_inj_of_len_eq Nat.one_lt_two (by simp [hlen]) (digit_lt xs)
    (digit_lt ys) h
  have htoNat : Function.Injective Bool.toNat := by decide
  exact List.reverse_injective (List.map_injective_iff.mpr htoNat hdigits)

theorem value_replicate_true (n : Nat) : value (List.replicate n true) = 2 ^ n - 1 := by
  induction n with
  | zero => rfl
  | succ n ih =>
    have hpos := Nat.two_pow_pos n
    rw [List.replicate_succ, ← List.singleton_append, value_append, ih, List.length_replicate,
      show value [true] = 1 from rfl]
    omega

theorem value_replicate_false (n : Nat) : value (List.replicate n false) = 0 := by
  induction n with
  | zero => rfl
  | succ n ih =>
    rw [List.replicate_succ, ← List.singleton_append, value_append, ih,
      show value [false] = 0 from rfl, Nat.zero_mul]

theorem value_ofByte (b : UInt8) : value (ofByte b) = b.toNat := by
  have h : ∀ n : Fin 256, value ((List.range 8).map fun i => n.val.testBit (7 - i)) = n.val := by
    decide +kernel
  exact h ⟨b.toNat, b.toNat_lt⟩

theorem value_ofBytes_cons (b : UInt8) (l : List UInt8) :
    value (ofBytes (b :: l)) = b.toNat * 256 ^ l.length + value (ofBytes l) := by
  have hlen : (l.flatMap ofByte).length = 8 * l.length := length_ofBytes l
  rw [ofBytes, List.flatMap_cons, value_append, value_ofByte, hlen, Nat.pow_mul]
  rfl

/-- Bits in a row are replaced. -/
theorem dvd_replace {m : Nat} (hodd : Nat.Coprime m 2) (hlen : xs.length = ys.length)
    (h : m ∣ value (pre ++ xs ++ post)) :
    m ∣ value (pre ++ ys ++ post) ↔ value xs ≡ value ys [MOD m] := by
  have hsplit : ∀ zs : List Bool, zs.length = ys.length → value (pre ++ zs ++ post) =
      value zs * 2 ^ post.length + (value pre * 2 ^ (ys.length + post.length) + value post) := by
    intro zs hzs
    rw [value_append, value_append, hzs, Nat.pow_add]
    ring
  rw [hsplit xs hlen] at h
  rw [hsplit ys rfl]
  have hzero := (Nat.modEq_zero_iff_dvd.mpr h).symm
  constructor
  · intro h'
    have hsame := (Nat.modEq_zero_iff_dvd.mpr h').trans hzero
    have hmul := (Nat.ModEq.add_right_cancel' _ hsame).symm
    exact Nat.ModEq.cancel_right_of_coprime (Nat.Coprime.pow_right _ hodd) hmul
  · intro hsame
    have hmul := (hsame.mul_right (2 ^ post.length)).add_right
      (value pre * 2 ^ (ys.length + post.length) + value post)
    exact Nat.modEq_zero_iff_dvd.mp (hmul.symm.trans hzero.symm)

end Bits
