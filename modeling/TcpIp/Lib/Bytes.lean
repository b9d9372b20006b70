import Mathlib.Algebra.Ring.Nat
import Mathlib.Data.List.GetD
import Mathlib.Tactic.Common

/-!
# Bytes: little-endian words and byte-addressed memory

* `le16`, `le32`: the word a little-endian machine reads from consecutive bytes; `bytes16`,
  `bytes32`: the bytes it stores; `swap16`, `swap32`: byte reversal.
* `readN m p n`: the `n` cells of a memory from `p` on; `writeL m p l`: the memory with the list
  `l` stored from `p` on. The frame lemmas say what a read sees after a write
  (`readN_writeL_same`, `readN_writeL_ne`), and that reads compose (`readN_add`).
-/

namespace Bytes

/-! ## Words -/

/-- The 16-bit word stored as `a, b`. -/
def le16 (a b : UInt8) : UInt16 := UInt16.ofNat (a.toNat + 256 * b.toNat)

/-- The 32-bit word stored as `a, b, c, d`. -/
def le32 (a b c d : UInt8) : UInt32 :=
  UInt32.ofNat (a.toNat + 256 * b.toNat + 65536 * c.toNat + 16777216 * d.toNat)

/-- Byte `i` of a 16-bit word, the lowest first. -/
def byte16 (v : UInt16) (i : Nat) : UInt8 := UInt8.ofNat (v.toNat / 256 ^ i)

/-- Byte `i` of a 32-bit word, the lowest first. -/
def byte32 (v : UInt32) (i : Nat) : UInt8 := UInt8.ofNat (v.toNat / 256 ^ i)

/-- The bytes of a 16-bit word in memory. -/
def bytes16 (v : UInt16) : List UInt8 := [byte16 v 0, byte16 v 1]

/-- The bytes of a 32-bit word in memory. -/
def bytes32 (v : UInt32) : List UInt8 := [byte32 v 0, byte32 v 1, byte32 v 2, byte32 v 3]

/-- The word with its bytes reversed. -/
def swap16 (v : UInt16) : UInt16 := le16 (byte16 v 1) (byte16 v 0)

/-- The word with its bytes reversed. -/
def swap32 (v : UInt32) : UInt32 := le32 (byte32 v 3) (byte32 v 2) (byte32 v 1) (byte32 v 0)

theorem le16_toNat (a b : UInt8) : (le16 a b).toNat = a.toNat + 256 * b.toNat := by
  have ha := a.toNat_lt
  have hb := b.toNat_lt
  unfold le16
  rw [UInt16.toNat_ofNat', Nat.mod_eq_of_lt (by omega)]

theorem le32_toNat (a b c d : UInt8) :
    (le32 a b c d).toNat =
      a.toNat + 256 * b.toNat + 65536 * c.toNat + 16777216 * d.toNat := by
  have ha := a.toNat_lt
  have hb := b.toNat_lt
  have hc := c.toNat_lt
  have hd := d.toNat_lt
  unfold le32
  rw [UInt32.toNat_ofNat', Nat.mod_eq_of_lt (by omega)]

theorem byte16_toNat (v : UInt16) (i : Nat) : (byte16 v i).toNat = v.toNat / 256 ^ i % 256 := by
  unfold byte16
  rw [UInt8.toNat_ofNat']

theorem byte32_toNat (v : UInt32) (i : Nat) : (byte32 v i).toNat = v.toNat / 256 ^ i % 256 := by
  unfold byte32
  rw [UInt8.toNat_ofNat']

@[simp] theorem byte16_le16_zero (a b : UInt8) : byte16 (le16 a b) 0 = a := by
  apply UInt8.toNat_inj.mp
  have ha := a.toNat_lt
  rw [byte16_toNat, le16_toNat]
  omega

@[simp] theorem byte16_le16_one (a b : UInt8) : byte16 (le16 a b) 1 = b := by
  apply UInt8.toNat_inj.mp
  have ha := a.toNat_lt
  have hb := b.toNat_lt
  rw [byte16_toNat, le16_toNat]
  omega

@[simp] theorem bytes16_le16 (a b : UInt8) : bytes16 (le16 a b) = [a, b] := by
  simp [bytes16]

@[simp] theorem le16_bytes (v : UInt16) : le16 (byte16 v 0) (byte16 v 1) = v := by
  apply UInt16.toNat_inj.mp
  have hv := v.toNat_lt
  rw [le16_toNat, byte16_toNat, byte16_toNat]
  omega

@[simp] theorem swap16_le16 (a b : UInt8) : swap16 (le16 a b) = le16 b a := by
  simp [swap16]

@[simp] theorem swap16_swap16 (v : UInt16) : swap16 (swap16 v) = v := by
  simp [swap16]

@[simp] theorem byte16_swap16_zero (v : UInt16) : byte16 (swap16 v) 0 = byte16 v 1 := by
  simp [swap16]

@[simp] theorem byte16_swap16_one (v : UInt16) : byte16 (swap16 v) 1 = byte16 v 0 := by
  simp [swap16]

@[simp] theorem bytes32_le32 (a b c d : UInt8) : bytes32 (le32 a b c d) = [a, b, c, d] := by
  have ha := a.toNat_lt
  have hb := b.toNat_lt
  have hc := c.toNat_lt
  have hd := d.toNat_lt
  have h0 : byte32 (le32 a b c d) 0 = a := by
    apply UInt8.toNat_inj.mp; rw [byte32_toNat, le32_toNat]; omega
  have h1 : byte32 (le32 a b c d) 1 = b := by
    apply UInt8.toNat_inj.mp; rw [byte32_toNat, le32_toNat]; omega
  have h2 : byte32 (le32 a b c d) 2 = c := by
    apply UInt8.toNat_inj.mp; rw [byte32_toNat, le32_toNat]; omega
  have h3 : byte32 (le32 a b c d) 3 = d := by
    apply UInt8.toNat_inj.mp; rw [byte32_toNat, le32_toNat]; omega
  unfold bytes32
  rw [h0, h1, h2, h3]

@[simp] theorem le32_bytes (v : UInt32) :
    le32 (byte32 v 0) (byte32 v 1) (byte32 v 2) (byte32 v 3) = v := by
  apply UInt32.toNat_inj.mp
  have hv := v.toNat_lt
  rw [le32_toNat, byte32_toNat, byte32_toNat, byte32_toNat, byte32_toNat]
  omega

@[simp] theorem swap32_le32 (a b c d : UInt8) : swap32 (le32 a b c d) = le32 d c b a := by
  have h := bytes32_le32 a b c d
  simp only [bytes32, List.cons.injEq, and_true] at h
  unfold swap32
  rw [h.1, h.2.1, h.2.2.1, h.2.2.2]

@[simp] theorem swap32_swap32 (v : UInt32) : swap32 (swap32 v) = v := by
  rw [swap32.eq_1 v, swap32_le32, le32_bytes]

/-- The low half. -/
theorem le32_toUInt16 (a b c d : UInt8) : (le32 a b c d).toUInt16 = le16 a b := by
  have ha := a.toNat_lt
  have hb := b.toNat_lt
  apply UInt16.toNat_inj.mp
  rw [UInt32.toNat_toUInt16, le32_toNat, le16_toNat]
  omega

@[simp] theorem length_bytes16 (v : UInt16) : (bytes16 v).length = 2 := by simp [bytes16]

@[simp] theorem length_bytes32 (v : UInt32) : (bytes32 v).length = 4 := by simp [bytes32]

theorem bytes16_inj {v v' : UInt16} (h : bytes16 v = bytes16 v') : v = v' := by
  simp only [bytes16, List.cons.injEq, and_true] at h
  rw [← le16_bytes v, ← le16_bytes v', h.1, h.2]

theorem bytes32_inj {v v' : UInt32} (h : bytes32 v = bytes32 v') : v = v' := by
  simp only [bytes32, List.cons.injEq, and_true] at h
  rw [← le32_bytes v, ← le32_bytes v', h.1, h.2.1, h.2.2.1, h.2.2.2]

theorem bytes32_toUInt32 (v : UInt16) : bytes32 v.toUInt32 = bytes16 v ++ [0, 0] := by
  have hlt := v.toNat_lt
  have hlow : ∀ k, byte32 v.toUInt32 k = byte16 v k := fun k => by
    rw [byte32, byte16, UInt16.toNat_toUInt32]
  have hhigh : ∀ k, 2 ≤ k → byte16 v k = 0 := fun k hk => by
    have hpow : 256 ^ 2 ≤ 256 ^ k := Nat.pow_le_pow_right (by decide) hk
    rw [byte16, Nat.div_eq_of_lt (by omega)]
    rfl
  rw [bytes32, hlow, hlow, hlow, hlow, hhigh 2 (by decide), hhigh 3 (by decide)]
  rfl

/-- The big-endian word at `i`. -/
def be16 (l : List UInt8) (i : Nat) : Nat := 256 * (l.getD i 0).toNat + (l.getD (i + 1) 0).toNat

theorem be16_append {l : List UInt8} {i : Nat} (h : l.length = i) (v : UInt16) (r : List UInt8) :
    be16 (l ++ (bytes16 (swap16 v) ++ r)) i = v.toNat := by
  subst h
  have hv := v.toNat_lt
  have h0 : (l ++ (bytes16 (swap16 v) ++ r)).getD l.length 0 = byte16 v 1 := by
    simp [swap16]
  have h1 : (l ++ (bytes16 (swap16 v) ++ r)).getD (l.length + 1) 0 = byte16 v 0 := by
    simp [swap16]
  rw [be16, h0, h1, byte16_toNat, byte16_toNat]
  omega

/-! ## Memory -/

section Memory

variable {β : Type}

/-- The `n` cells from `p` on. -/
def readN (m : Nat → β) (p n : Nat) : List β := (List.range n).map fun i => m (p + i)

/-- The memory with `l` stored from `p` on. -/
def writeL (m : Nat → β) (p : Nat) (l : List β) : Nat → β :=
  fun i => if p ≤ i then l.getD (i - p) (m i) else m i

@[simp] theorem length_readN (m : Nat → β) (p n : Nat) : (readN m p n).length = n := by
  simp [readN]

theorem getElem_readN (m : Nat → β) (p n i : Nat) (h : i < (readN m p n).length) :
    (readN m p n)[i] = m (p + i) := by
  simp [readN]

@[simp] theorem readN_zero (m : Nat → β) (p : Nat) : readN m p 0 = [] := rfl

theorem readN_add (m : Nat → β) (p a b : Nat) :
    readN m p (a + b) = readN m p a ++ readN m (p + a) b := by
  simp [readN, List.range_add, Function.comp_def, Nat.add_assoc]

theorem readN_congr {m m' : Nat → β} {p n : Nat} (h : ∀ i, p ≤ i → i < p + n → m i = m' i) :
    readN m p n = readN m' p n := by
  apply List.map_congr_left
  intro i hi
  exact h _ (by omega) (by have := List.mem_range.mp hi; omega)

theorem writeL_apply_in {m : Nat → β} {p i : Nat} {l : List β} (h1 : p ≤ i)
    (h2 : i < p + l.length) : writeL m p l i = l[i - p] := by
  unfold writeL
  rw [if_pos h1, List.getD_eq_getElem]

theorem writeL_apply_out {m : Nat → β} {p i : Nat} {l : List β} (h : i < p ∨ p + l.length ≤ i) :
    writeL m p l i = m i := by
  unfold writeL
  split
  · rw [List.getD_eq_default _ _ (by omega)]
  · rfl

/-- A read of the written range gives the written list. -/
theorem readN_writeL_same (m : Nat → β) (p : Nat) (l : List β) :
    readN (writeL m p l) p l.length = l := by
  apply List.ext_getElem (by simp)
  intro i h1 h2
  rw [getElem_readN, writeL_apply_in (by omega) (by omega)]
  congr 1
  omega

/-- A read of a range that does not overlap the written one is unchanged. -/
theorem readN_writeL_ne (m : Nat → β) {p q n : Nat} {l : List β}
    (h : q + n ≤ p ∨ p + l.length ≤ q) : readN (writeL m p l) q n = readN m q n :=
  readN_congr fun _ h1 h2 => writeL_apply_out (by omega)

/-- `b` with the cells from `i` on replaced by those of `l`, within the length of `b`. -/
def overlay (b : List β) (i : Nat) (l : List β) : List β :=
  b.mapIdx fun j x => if i ≤ j then l.getD (j - i) x else x

@[simp] theorem length_overlay (b : List β) (i : Nat) (l : List β) :
    (overlay b i l).length = b.length := by
  simp [overlay]

/-- A read of a range that contains the start of the written one. -/
theorem readN_writeL_overlay (m : Nat → β) (p i n : Nat) (l : List β) :
    readN (writeL m (p + i) l) p n = overlay (readN m p n) i l := by
  apply List.ext_getElem
  · simp
  · intro j h1 h2
    simp only [overlay, List.getElem_mapIdx, getElem_readN, writeL, Nat.add_le_add_iff_left,
      Nat.add_sub_add_left]

/-- An overlay that ends inside the first part. -/
theorem overlay_append {a b : List β} {i : Nat} {l : List β} (h : i + l.length ≤ a.length) :
    overlay (a ++ b) i l = overlay a i l ++ b := by
  simp only [overlay, List.mapIdx_append]
  congr 1
  apply List.ext_getElem
  · simp
  · intro j h1 h2
    rw [List.getElem_mapIdx, if_pos (by omega), List.getD_eq_default _ _ (by omega)]

theorem overlay_eq_append {b : List β} {i : Nat} {l : List β} (h : i + l.length ≤ b.length) :
    overlay b i l = b.take i ++ (l ++ b.drop (i + l.length)) := by
  apply List.ext_getElem
  · simp only [length_overlay, List.length_append, List.length_take, List.length_drop]
    omega
  · intro j h1 h2
    simp only [overlay, List.getElem_mapIdx, List.getElem_append, List.length_take,
      List.getElem_take, List.getElem_drop]
    have hmin : min i b.length = i := Nat.min_eq_left (by omega)
    simp only [hmin]
    split
    · rename_i hij
      rw [dif_neg (by omega)]
      split
      · rename_i hjl
        rw [List.getD_eq_getElem _ _ hjl]
      · rename_i hjl
        rw [List.getD_eq_default _ _ (by omega)]
        congr 1
        omega
    · rw [dif_pos (by omega)]

/-- Storing what is there changes nothing. -/
theorem writeL_readN (m : Nat → β) (p n : Nat) : writeL m p (readN m p n) = m := by
  funext i
  by_cases hi : p ≤ i ∧ i < p + n
  · rw [writeL_apply_in hi.1 (by rw [length_readN]; exact hi.2), getElem_readN]
    congr 1
    omega
  · exact writeL_apply_out (by rw [length_readN]; omega)

/-- The last of two stores to one place counts. -/
theorem writeL_writeL (m : Nat → β) (p : Nat) {l l' : List β} (h : l.length = l'.length) :
    writeL (writeL m p l) p l' = writeL m p l' := by
  funext i
  by_cases hi : p ≤ i ∧ i < p + l'.length
  · rw [writeL_apply_in hi.1 hi.2, writeL_apply_in hi.1 hi.2]
  · rw [writeL_apply_out (by omega), writeL_apply_out (by omega), writeL_apply_out (by omega)]

theorem overlay_overlay (b : List β) (i : Nat) {l l' : List β} (h : l.length = l'.length) :
    overlay (overlay b i l) i l' = overlay b i l' := by
  simp only [overlay, List.mapIdx_mapIdx]
  congr 1
  funext j x
  simp only [Function.comp_apply]
  split
  · rename_i hij
    by_cases hj : j - i < l'.length
    · rw [List.getD_eq_getElem _ _ hj, List.getD_eq_getElem _ _ hj]
    · rw [List.getD_eq_default _ _ (by omega), List.getD_eq_default _ _ (by omega),
        List.getD_eq_default _ _ (by omega)]
  · rfl

theorem getD_readN {m : Nat → β} {p n i : Nat} (h : i < n) (d : β) :
    (readN m p n).getD i d = m (p + i) := by
  rw [List.getD_eq_getElem _ _ (by simpa using h), getElem_readN]

theorem take_readN (m : Nat → β) (p : Nat) {n k : Nat} (h : k ≤ n) :
    (readN m p n).take k = readN m p k := by
  obtain ⟨j, rfl⟩ := Nat.exists_eq_add_of_le h
  rw [readN_add, List.take_left' (by simp)]

theorem drop_readN (m : Nat → β) (p : Nat) {n k : Nat} (h : k ≤ n) :
    (readN m p n).drop k = readN m (p + k) (n - k) := by
  obtain ⟨j, rfl⟩ := Nat.exists_eq_add_of_le h
  rw [readN_add, List.drop_left' (by simp), Nat.add_sub_cancel_left]

@[simp] theorem writeL_nil (m : Nat → β) (p : Nat) : writeL m p [] = m := by
  funext i
  exact writeL_apply_out (by simp; omega)

end Memory

end Bytes
