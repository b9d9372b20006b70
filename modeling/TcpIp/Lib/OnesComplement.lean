import Mathlib.Algebra.Ring.Nat
import Mathlib.Data.List.Basic
import Mathlib.Tactic.Common
import TcpIp.Lib.Bytes

/-!
# One's-complement sums

`endAround b n` folds the carries of `n` above one base-`b` digit back into the digit until none is
left: the end-around-carry sum. It is the residue of `n` modulo `b - 1`, with `0` kept apart from
the nonzero multiples, which fold to `b - 1` (`endAround_eq`). A sum completed with the complement
of its fold folds to `b - 1` (`endAround_complement`).

`onesSum b ws` adds digits one after another, each carry at once: it is the fold of their plain sum
(`onesSum_eq_endAround`).

`wordSum l` is the sum of the 16-bit little-endian words of a byte list, the last one padded with a
zero byte; a `WordError` changes one of them, and the sum by their difference
(`WordError.wordSum_eq`). `beWords l` are the big-endian words: the one's-complement sums of both
have the same bytes, in opposite order (`onesSum_beWords`).
-/

namespace OnesComplement

open Bytes

/-- Fold the carries of `n` into one digit of base `b`. -/
def endAround (b n : Nat) : Nat :=
  if 1 < b ∧ b ≤ n then endAround b (n % b + n / b) else n
termination_by n
decreasing_by
  rename_i h
  have h1 := Nat.div_add_mod n b
  have h2 : 1 ≤ n / b := (Nat.one_le_div_iff (by omega)).mpr h.2
  have h3 : 2 * (n / b) ≤ b * (n / b) := Nat.mul_le_mul_right _ h.1
  omega

theorem endAround_eq {b : Nat} (hb : 1 < b) (n : Nat) :
    endAround b n = if n = 0 then 0 else (n - 1) % (b - 1) + 1 := by
  induction n using Nat.strongRecOn with
  | _ n ih =>
    rw [endAround]
    by_cases h : b ≤ n
    · have h1 := Nat.div_add_mod n b
      have h2 : 1 ≤ n / b := (Nat.one_le_div_iff (by omega)).mpr h
      have h3 : 2 * (n / b) ≤ b * (n / b) := Nat.mul_le_mul_right _ hb
      have h4 : b * (n / b) = (b - 1) * (n / b) + n / b := by
        rw [← Nat.succ_mul]; congr 1; omega
      rw [if_pos ⟨hb, h⟩, ih _ (by omega), if_neg (by omega), if_neg (by omega)]
      -- One fold removes a multiple of `b - 1`.
      rw [show n - 1 = (n % b + n / b - 1) + (b - 1) * (n / b) by omega, Nat.add_mul_mod_self_left]
    · rw [if_neg (by omega)]
      split
      · assumption
      · rw [Nat.mod_eq_of_lt (by omega)]; omega

theorem endAround_le {b : Nat} (hb : 1 < b) (n : Nat) : endAround b n ≤ b - 1 := by
  rw [endAround_eq hb]
  have := Nat.mod_lt (n - 1) (show 0 < b - 1 by omega)
  split <;> omega

/-- The fold is all ones exactly at the nonzero multiples of `b - 1`. -/
theorem endAround_eq_max {b : Nat} (hb : 1 < b) (n : Nat) :
    endAround b n = b - 1 ↔ n ≠ 0 ∧ n % (b - 1) = 0 := by
  rw [endAround_eq hb]
  split
  · omega
  · rename_i hn
    have h : n = (n - 1) + 1 := by omega
    have hlt := Nat.mod_lt (n - 1) (show 0 < b - 1 by omega)
    conv => rhs; rw [h, Nat.add_mod_eq_ite]
    rcases Nat.lt_or_ge 1 (b - 1) with hb1 | hb1
    · rw [Nat.mod_eq_of_lt hb1]
      split <;> omega
    · have : b - 1 = 1 := by omega
      rw [this]
      simp [Nat.mod_one]

/-- Completing a sum with the complement of its fold gives all ones. -/
theorem endAround_complement {b : Nat} (hb : 1 < b) (n : Nat) :
    endAround b (n + (b - 1 - endAround b n)) = b - 1 := by
  rw [endAround_eq_max hb, endAround_eq hb]
  split
  · rename_i hn
    subst hn
    constructor
    · omega
    · simp
  · rename_i hn
    have h1 := Nat.div_add_mod (n - 1) (b - 1)
    have h2 := Nat.mod_lt (n - 1) (show 0 < b - 1 by omega)
    refine ⟨by omega, ?_⟩
    rw [show n + (b - 1 - ((n - 1) % (b - 1) + 1)) = (b - 1) * ((n - 1) / (b - 1) + 1) by
      rw [Nat.mul_succ]; omega]
    exact Nat.mul_mod_right _ _

theorem endAround_mod {b : Nat} (hb : 1 < b) (n : Nat) : endAround b n % (b - 1) = n % (b - 1) := by
  rw [endAround_eq hb]
  split
  · rename_i hn
    rw [hn]
  · rename_i hn
    rw [Nat.mod_add_mod]
    congr 1
    omega

theorem endAround_eq_zero {b : Nat} (hb : 1 < b) (n : Nat) : endAround b n = 0 ↔ n = 0 := by
  rw [endAround_eq hb]
  split <;> omega

/-- The fold is the only digit with the residue of `n` that is zero exactly when `n` is. -/
theorem eq_endAround {b : Nat} (hb : 1 < b) {n x : Nat} (hle : x ≤ b - 1) (hzero : x = 0 ↔ n = 0)
    (hmod : x % (b - 1) = n % (b - 1)) : x = endAround b n := by
  have hle' := endAround_le hb n
  have hzero' := endAround_eq_zero hb n
  have hmod' := endAround_mod hb n
  rcases Nat.lt_or_ge x (b - 1) with hx | hx
  · rcases Nat.lt_or_ge (endAround b n) (b - 1) with he | he
    · rw [Nat.mod_eq_of_lt hx] at hmod
      rw [Nat.mod_eq_of_lt he] at hmod'
      omega
    · have hn := ((endAround_eq_max hb n).mp (by omega)).2
      rw [Nat.mod_eq_of_lt hx] at hmod
      omega
  · have hx' : x = b - 1 := by omega
    rw [hx', Nat.mod_self] at hmod
    rw [hx']
    exact ((endAround_eq_max hb n).mpr ⟨by omega, hmod.symm⟩).symm

/-! ## Digit by digit -/

/-- One's-complement addition of base-`b` digits: a carry is added back at the low end. -/
def addCarry (b x y : Nat) : Nat := if x + y < b then x + y else x + y - b + 1

/-- The one's-complement sum of digits. -/
def onesSum (b : Nat) (ws : List Nat) : Nat := ws.foldl (addCarry b) 0

theorem addCarry_endAround {b : Nat} (hb : 1 < b) (n : Nat) {y : Nat} (hy : y < b) :
    addCarry b (endAround b n) y = endAround b (n + y) := by
  have hle := endAround_le hb n
  have hzero := endAround_eq_zero hb n
  have hmod : (endAround b n + y) % (b - 1) = (n + y) % (b - 1) := by
    rw [Nat.add_mod, endAround_mod hb, ← Nat.add_mod]
  unfold addCarry
  split
  · exact eq_endAround hb (by omega) (by omega) hmod
  · refine eq_endAround hb (by omega) (by omega) ?_
    rw [← hmod, show endAround b n + y = (endAround b n + y - b + 1) + (b - 1) by omega,
      Nat.add_mod_right]
    congr 1
    omega

/-- Adding each carry at once or folding them all at the end gives the same. -/
theorem onesSum_eq_endAround {b : Nat} (hb : 1 < b) {ws : List Nat} (h : ∀ w ∈ ws, w < b) :
    onesSum b ws = endAround b ws.sum := by
  have hloop : ∀ n, ws.foldl (addCarry b) (endAround b n) = endAround b (n + ws.sum) := by
    induction ws with
    | nil =>
      intro n
      simp
    | cons w ws ih =>
      intro n
      rw [List.foldl_cons, addCarry_endAround hb n (h w List.mem_cons_self),
        ih (fun w' hw' => h w' (List.mem_cons_of_mem _ hw')), List.sum_cons, Nat.add_assoc]
  have hstart : endAround b 0 = 0 := (endAround_eq_zero hb 0).mpr rfl
  have := hloop 0
  rwa [hstart, Nat.zero_add] at this

/-! ## Sums of words -/

/-- The sum of the little-endian 16-bit words of a byte list. -/
def wordSum : List UInt8 → Nat
  | a :: b :: l => a.toNat + 256 * b.toNat + wordSum l
  | [a] => a.toNat
  | [] => 0

/-- Words split at an even position. -/
theorem wordSum_append {l : List UInt8} (h : l.length % 2 = 0) (l' : List UInt8) :
    wordSum (l ++ l') = wordSum l + wordSum l' := by
  induction l using wordSum.induct with
  | case1 a b l ih =>
    simp only [List.length_cons] at h
    rw [List.cons_append, List.cons_append, wordSum, wordSum, ih (by omega)]
    omega
  | case2 a => simp at h
  | case3 => simp [wordSum]

theorem wordSum_le (l : List UInt8) : wordSum l ≤ 65535 * ((l.length + 1) / 2) := by
  induction l using wordSum.induct with
  | case1 a b l ih =>
    have ha := a.toNat_lt
    have hb := b.toNat_lt
    unfold wordSum
    rw [List.length_cons, List.length_cons]
    omega
  | case2 a =>
    have ha := a.toNat_lt
    simp only [wordSum, List.length_cons, List.length_nil]
    omega
  | case3 => simp [wordSum]

@[simp] theorem wordSum_bytes16 (v : UInt16) : wordSum (bytes16 v) = v.toNat := by
  have h := congrArg UInt16.toNat (le16_bytes v)
  rw [le16_toNat] at h
  simp only [bytes16, wordSum]
  omega

/-- The words of a 32-bit value, which is their sum modulo `0xffff`. -/
theorem wordSum_bytes32 (v : UInt32) : wordSum (bytes32 v) = v.toNat % 65536 + v.toNat / 65536 := by
  have h := congrArg UInt32.toNat (le32_bytes v)
  have h0 := (byte32 v 0).toNat_lt
  have h1 := (byte32 v 1).toNat_lt
  have h2 := (byte32 v 2).toNat_lt
  have h3 := (byte32 v 3).toNat_lt
  rw [le32_toNat] at h
  simp only [bytes32, wordSum]
  omega

/-- What byte `i` of a list counts for in the word sum. -/
def byteWeight (i : Nat) : Nat := if i % 2 = 0 then 1 else 256

@[simp] theorem byteWeight_zero : byteWeight 0 = 1 := rfl

@[simp] theorem byteWeight_one : byteWeight 1 = 256 := rfl

@[simp] theorem byteWeight_add_two (i : Nat) : byteWeight (i + 2) = byteWeight i := by
  simp only [byteWeight, Nat.add_mod_right]

/-- Replacing a byte moves the word sum by its weight. -/
theorem wordSum_set (l : List UInt8) {i : Nat} (h : i < l.length) (b : UInt8) :
    wordSum (l.set i b) + byteWeight i * l[i].toNat = wordSum l + byteWeight i * b.toNat := by
  induction l using wordSum.induct generalizing i with
  | case1 a c l ih =>
    match i, h with
    | 0, _ =>
      simp only [List.set_cons_zero, wordSum, List.getElem_cons_zero, byteWeight_zero]
      omega
    | 1, _ =>
      simp only [List.set_cons_succ, List.set_cons_zero, wordSum, List.getElem_cons_succ,
        List.getElem_cons_zero, byteWeight_one]
      omega
    | i + 2, h =>
      have hi : i < l.length := by simpa using h
      simp only [List.set_cons_succ, wordSum, List.getElem_cons_succ, byteWeight_add_two]
      have := ih hi
      omega
  | case2 a =>
    obtain rfl : i = 0 := by simpa using h
    simp [wordSum, Nat.add_comm]
  | case3 => simp at h

/-! ## One word of many -/

/-- Little-endian word `i` of a byte list, padded with zero bytes. -/
def wordAt (l : List UInt8) (i : Nat) : UInt16 := le16 (l.getD (2 * i) 0) (l.getD (2 * i + 1) 0)

/-- The words before `i`, word `i` and the words after it. -/
theorem wordSum_split (l : List UInt8) (i : Nat) :
    wordSum l = wordSum (l.take (2 * i)) + (wordAt l i).toNat + wordSum (l.drop (2 * i + 2)) := by
  induction i generalizing l with
  | zero =>
    match l with
    | [] => rfl
    | [a] => simp [wordSum, wordAt, le16_toNat]
    | a :: b :: l => simp [wordSum, wordAt, le16_toNat]
  | succ i ih =>
    rw [Nat.mul_succ]
    match l with
    | [] => simp [wordSum, wordAt, le16_toNat]
    | [a] => simp [wordSum, wordAt, le16_toNat]
    | a :: b :: l =>
      have hword : wordAt (a :: b :: l) (i + 1) = wordAt l i := rfl
      rw [wordSum, ih l, hword, List.take_succ_cons, List.take_succ_cons, wordSum,
        List.drop_succ_cons, List.drop_succ_cons]
      omega

/-- `l'` differs from `l` inside word `i` only. -/
structure WordError (l l' : List UInt8) (i : Nat) : Prop where
  length : l'.length = l.length
  ne : l' ≠ l
  same : ∀ j, j / 2 ≠ i → l'.getD j 0 = l.getD j 0

/-- Word `i` changed from all zeros to all ones, or back. -/
def Complemented (l l' : List UInt8) (i : Nat) : Prop :=
  wordAt l i = 0 ∧ wordAt l' i = 0xffff ∨ wordAt l i = 0xffff ∧ wordAt l' i = 0

namespace WordError

variable {l l' : List UInt8} {i : Nat}

theorem getElem_eq (h : WordError l l' i) {j : Nat} (hj : j < l'.length) (hj' : j < l.length)
    (hi : j / 2 ≠ i) : l'[j] = l[j] := by
  have := h.same j hi
  rwa [List.getD_eq_getElem _ _ hj, List.getD_eq_getElem _ _ hj'] at this

theorem take_eq (h : WordError l l' i) : l'.take (2 * i) = l.take (2 * i) := by
  apply List.ext_getElem
  · rw [List.length_take, List.length_take, h.length]
  · intro j hj hj'
    rw [List.length_take] at hj hj'
    rw [List.getElem_take, List.getElem_take]
    exact h.getElem_eq _ _ (by omega)

theorem drop_eq (h : WordError l l' i) : l'.drop (2 * i + 2) = l.drop (2 * i + 2) := by
  apply List.ext_getElem
  · rw [List.length_drop, List.length_drop, h.length]
  · intro j hj hj'
    rw [List.getElem_drop, List.getElem_drop]
    exact h.getElem_eq _ _ (by omega)

/-- The word sums differ by the words. -/
theorem wordSum_eq (h : WordError l l' i) :
    wordSum l + (wordAt l' i).toNat = wordSum l' + (wordAt l i).toNat := by
  rw [wordSum_split l i, wordSum_split l' i, h.take_eq, h.drop_eq]
  omega

/-- The word has changed. -/
theorem wordAt_ne (h : WordError l l' i) : wordAt l' i ≠ wordAt l i := by
  intro heq
  have hpair : ∀ {a b c d : UInt8}, le16 a b = le16 c d → a = c ∧ b = d := by
    intro a b c d hle
    have := congrArg bytes16 hle
    simpa using this
  obtain ⟨hlow, hhigh⟩ := hpair heq
  apply h.ne
  apply List.ext_getElem h.length
  intro j hj hj'
  by_cases hi : j / 2 = i
  · rw [← List.getD_eq_getElem l' 0 hj, ← List.getD_eq_getElem l 0 hj']
    obtain rfl | rfl : j = 2 * i ∨ j = 2 * i + 1 := by omega
    · exact hlow
    · exact hhigh
  · exact h.getElem_eq hj hj' hi

/-- One changed byte is a word error that does not complement the word. -/
theorem of_set {j : Nat} (hj : j < l.length) {b : UInt8} (hb : b ≠ l[j]) :
    WordError l (l.set j b) (j / 2) ∧ ¬ Complemented l (l.set j b) (j / 2) := by
  have hget : ∀ k, k ≠ j → (l.set j b).getD k 0 = l.getD k 0 := by
    intro k hk
    simp [List.getD_eq_getElem?_getD, List.getElem?_set_ne hk.symm]
  refine ⟨⟨List.length_set, ?_, fun k hk => hget k (by omega)⟩, ?_⟩
  · intro heq
    apply hb
    have hj' : j < (l.set j b).length := by rwa [List.length_set]
    have : (l.set j b).getD j 0 = l.getD j 0 := by rw [heq]
    rwa [List.getD_eq_getElem _ _ hj', List.getD_eq_getElem _ _ hj, List.getElem_set_self] at this
  · -- The other byte of the word stays as it is.
    have hother : ∃ s : UInt16 → UInt8, s 0 ≠ s 0xffff ∧
        s (wordAt (l.set j b) (j / 2)) = s (wordAt l (j / 2)) := by
      rcases Nat.mod_two_eq_zero_or_one j with hmod | hmod
      · refine ⟨(byte16 · 1), by decide, ?_⟩
        simp only [wordAt, byte16_le16_one]
        exact hget _ (by omega)
      · refine ⟨(byte16 · 0), by decide, ?_⟩
        simp only [wordAt, byte16_le16_zero]
        exact hget _ (by omega)
    obtain ⟨s, hs, heq⟩ := hother
    rintro (⟨h0, h1⟩ | ⟨h0, h1⟩)
    · rw [h0, h1] at heq
      exact hs heq.symm
    · rw [h0, h1] at heq
      exact hs heq

end WordError

/-! ## Big-endian words -/

/-- The big-endian 16-bit words of a byte list, the last one padded with a zero byte. -/
def beWords : List UInt8 → List Nat
  | a :: b :: l => (256 * a.toNat + b.toNat) :: beWords l
  | [a] => [256 * a.toNat]
  | [] => []

theorem beWords_lt (l : List UInt8) : ∀ w ∈ beWords l, w < 65536 := by
  induction l using beWords.induct with
  | case1 a b l ih =>
    have ha := a.toNat_lt
    have hb := b.toNat_lt
    intro w hw
    rcases List.mem_cons.mp hw with rfl | hw
    · omega
    · exact ih w hw
  | case2 a =>
    have ha := a.toNat_lt
    intro w hw
    rw [List.mem_singleton.mp hw]
    omega
  | case3 => exact nofun

/-- Byte order multiplies the sum by `256`, modulo `0xffff`. -/
theorem sum_beWords (l : List UInt8) :
    (beWords l).sum % 65535 = 256 * wordSum l % 65535 ∧ ((beWords l).sum = 0 ↔ wordSum l = 0) := by
  induction l using beWords.induct with
  | case1 a b l ih =>
    simp only [beWords, wordSum, List.sum_cons]
    omega
  | case2 a =>
    simp only [beWords, wordSum, List.sum_cons, List.sum_nil]
    omega
  | case3 => simp [beWords, wordSum]

/-- The big-endian one's-complement sum has the bytes of the little-endian one, swapped. -/
theorem onesSum_beWords (l : List UInt8) :
    onesSum 65536 (beWords l) =
      endAround 65536 (wordSum l) / 256 + 256 * (endAround 65536 (wordSum l) % 256) := by
  have hb : 1 < 65536 := by decide
  have hle := endAround_le hb (wordSum l)
  have hzero := endAround_eq_zero hb (wordSum l)
  have hmod := endAround_mod hb (wordSum l)
  obtain ⟨hsum, hsum0⟩ := sum_beWords l
  rw [onesSum_eq_endAround hb (beWords_lt l)]
  generalize endAround 65536 (wordSum l) = s at *
  refine (eq_endAround hb ?_ ?_ ?_).symm <;> omega

end OnesComplement
