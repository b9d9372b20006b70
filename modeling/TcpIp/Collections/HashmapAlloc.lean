import Mathlib.Order.Bounds.Basic
import TcpIp.Collections.HashmapLemmas

/-!
# The capacity `hashmap_alloc` chooses

The loop of `highest_bit` stops at the least power of two that is not below the requested size
(`highestBitLoop_isLeast`), `highest_bit` halves it and `hashmap_alloc` doubles it again. The two
cancel except at `1`, whose half is `0`, and there the minimum of 16 slots takes over
(`targetSize_pow`).

* `highestBit_isSome_iff`: up to `2 ^ 62`, and no further, no shift of the loop overflows a `long`.
* `hashmapAlloc_eq`: the table `hashmap_alloc` returns, from the exponent its loop found.
-/

namespace TcpIp

open OpenAddressing

variable {K V : Type}

/-! ## The loop of `highest_bit` -/

/-- From `2 ^ j` the loop returns the power with the least exponent, from `j` on, that is not
below `i`. -/
theorem highestBitLoop_isLeast {i r : Int} {fuel j : Nat}
    (h : highestBitLoop i fuel (2 ^ j) = some r) :
    ∃ k, r = 2 ^ k ∧ IsLeast {m : Nat | j ≤ m ∧ i ≤ 2 ^ m} k := by
  induction fuel generalizing j with
  | zero => cases h
  | succ fuel ih =>
    rw [highestBitLoop] at h
    split at h
    · rename_i hlt
      split at h
      · rw [← Int.pow_succ'] at h
        obtain ⟨k, rfl, ⟨hjk, hik⟩, hleast⟩ := ih h
        refine ⟨k, rfl, ⟨Nat.le_of_succ_le hjk, hik⟩, fun m ⟨hjm, him⟩ => hleast ⟨?_, him⟩⟩
        -- `2 ^ j` itself is below `i`, so `j` is no candidate.
        refine Nat.succ_le_of_lt (Nat.lt_of_le_of_ne hjm ?_)
        rintro rfl
        omega
      · cases h
    · rename_i hge
      exact ⟨j, (Option.some.inj h).symm, ⟨Nat.le_refl j, Int.not_lt.mp hge⟩, fun m hm => hm.1⟩

/-- Up to `2 ^ 62` the loop ends before the shift overflows. -/
theorem highestBitLoop_isSome {i : Int} (hi : i ≤ 2 ^ 62) {fuel j : Nat} (hj : j ≤ 62)
    (hf : 62 < fuel + j) : (highestBitLoop i fuel (2 ^ j)).isSome := by
  induction fuel generalizing j with
  | zero => omega
  | succ fuel ih =>
    rw [highestBitLoop]
    split
    · rename_i hlt
      have hj62 : j < 62 := by
        by_contra hge
        obtain rfl : j = 62 := by omega
        omega
      have hle : (2 : Int) ^ (j + 1) ≤ 2 ^ 62 := by
        exact_mod_cast Nat.pow_le_pow_right (by decide : 0 < 2) hj62
      rw [← Int.pow_succ', if_pos (by unfold longMax; omega)]
      exact ih (by omega) (by omega)
    · rfl

/-- A loop that ends has shifted within a `long`. -/
theorem highestBitLoop_le {i r : Int} {fuel : Nat} {ret : Int} (hret : ret ≤ longMax)
    (h : highestBitLoop i fuel ret = some r) : r ≤ longMax := by
  induction fuel generalizing ret with
  | zero => cases h
  | succ fuel ih =>
    rw [highestBitLoop] at h
    split at h
    · split at h
      · rename_i hle
        exact ih hle h
      · cases h
    · exact Option.some.inj h ▸ hret

/-- The loop of a call `highest_bit(i)`, up to `2 ^ 62`. -/
theorem exists_highestBitLoop {i : Int} (hi : i ≤ 2 ^ 62) :
    ∃ k, k ≤ 62 ∧ highestBitLoop i 64 1 = some (2 ^ k) ∧ IsLeast {m : Nat | i ≤ 2 ^ m} k := by
  have hloop : (highestBitLoop i 64 (2 ^ 0)).isSome :=
    highestBitLoop_isSome hi (by omega) (by omega)
  obtain ⟨r, hr⟩ := Option.isSome_iff_exists.mp hloop
  obtain ⟨k, rfl, hk⟩ := highestBitLoop_isLeast hr
  rw [Int.pow_zero] at hr
  exact ⟨k, hk.2 ⟨Nat.zero_le 62, hi⟩, hr, by simpa using hk⟩

/-- `2 ^ 62` is the last size: for the next one the loop would have to reach `2 ^ 63`. -/
theorem highestBit_isSome_iff {i : Int} : (highestBit i).isSome ↔ i ≤ 2 ^ 62 := by
  constructor
  · intro h
    cases hloop : highestBitLoop i 64 (2 ^ 0) with
    | none =>
      rw [Int.pow_zero] at hloop
      simp [highestBit, hloop] at h
    | some r =>
      obtain ⟨k, rfl, ⟨-, hik⟩, -⟩ := highestBitLoop_isLeast hloop
      have hle : ((2 ^ k : Nat) : Int) ≤ longMax := by
        exact_mod_cast highestBitLoop_le (by decide) hloop
      have hk : 2 ^ k < 2 ^ 63 := by
        unfold longMax at hle
        omega
      have hk62 : k ≤ 62 := Nat.le_of_lt_succ ((Nat.pow_lt_pow_iff_right (by decide)).mp hk)
      calc i ≤ 2 ^ k := hik
        _ ≤ 2 ^ 62 := by exact_mod_cast Nat.pow_le_pow_right (by decide : 0 < 2) hk62
  · intro h
    obtain ⟨k, -, hloop, -⟩ := exists_highestBitLoop h
    simp [highestBit, hloop]

/-! ## The capacity -/

/-- Halved, doubled and raised to 16, a power of two is itself or 16. -/
theorem targetSize_pow (k : Nat) :
    (if ((2 : Int) ^ k).tdiv 2 * 2 < 16 then 16 else ((2 : Int) ^ k).tdiv 2 * 2).toNat =
      2 ^ max k 4 := by
  cases k with
  | zero => rfl
  | succ k =>
    have hhalf : ((2 : Int) ^ (k + 1)).tdiv 2 * 2 = ((2 ^ (k + 1) : Nat) : Int) := by
      rw [Int.pow_succ, Int.mul_tdiv_cancel _ (by decide), ← Int.pow_succ]
      norm_cast
    rw [hhalf]
    split
    · rename_i hlt
      have hk : k + 1 < 4 := (Nat.pow_lt_pow_iff_right (by decide : 1 < 2)).mp (by omega)
      rw [Nat.max_eq_right (by omega)]
      rfl
    · rename_i hge
      have hk : 4 ≤ k + 1 := (Nat.pow_le_pow_iff_right (by decide : 1 < 2)).mp (by omega)
      rw [Nat.max_eq_left hk, Int.toNat_natCast]

/-- The least sufficient exponent gives the least sufficient power of two. -/
theorem isLeast_capacity {initialSize : Int} {k : Nat}
    (h : IsLeast {m : Nat | initialSize ≤ 2 ^ m} k) :
    IsLeast {c : Nat | (∃ b, c = 2 ^ b) ∧ max initialSize 16 ≤ c} (2 ^ max k 4) := by
  have hpow : ∀ {a b : Nat}, a ≤ b → 2 ^ a ≤ 2 ^ b := Nat.pow_le_pow_right (by decide)
  have hcast : ∀ b : Nat, ((2 ^ b : Nat) : Int) = 2 ^ b := fun b => by norm_cast
  refine ⟨⟨⟨_, rfl⟩, max_le ?_ ?_⟩, ?_⟩
  · calc initialSize ≤ 2 ^ k := h.1
      _ = ((2 ^ k : Nat) : Int) := (hcast k).symm
      _ ≤ ((2 ^ max k 4 : Nat) : Int) := Int.ofNat_le.mpr (hpow (Nat.le_max_left k 4))
  · exact Int.ofNat_le.mpr (hpow (Nat.le_max_right k 4))
  · rintro _ ⟨⟨b, rfl⟩, hb⟩
    have hkb : k ≤ b := h.2 (show initialSize ≤ 2 ^ b by rw [← hcast]; omega)
    have h4b : 4 ≤ b := (Nat.pow_le_pow_iff_right (by decide : 1 < 2)).mp (by omega)
    exact hpow (max_le hkb h4b)

variable [Inhabited K] [Inhabited V]

/-- The table `hashmap_alloc` returns when its loop ends at `2 ^ k`. -/
theorem hashmapAlloc_eq {initialSize : Int} {k : Nat}
    (h : highestBitLoop initialSize 64 1 = some (2 ^ k)) (hash : K → UInt64)
    (equals : K → K → Bool) :
    (hashmapAlloc initialSize hash equals : Option (Hashmap K V)) =
      some ⟨callocElements (2 ^ max k 4), 2 ^ max k 4, 0, hash, equals⟩ := by
  simp only [hashmapAlloc, highestBit, h, Option.pure_def, Option.bind_eq_bind, Option.bind_some,
    targetSize_pow]

theorem hashmapAlloc_isSome {initialSize : Int} (h : initialSize ≤ 2 ^ 62) (hash : K → UInt64)
    (equals : K → K → Bool) :
    (hashmapAlloc initialSize hash equals : Option (Hashmap K V)).isSome := by
  obtain ⟨k, -, hloop, -⟩ := exists_highestBitLoop h
  rw [hashmapAlloc_eq hloop]
  rfl

/-- `hashmap_indexof` stays inside the table, whatever the slots hold. -/
theorem indexof_lt {map : Hashmap K V} (hp : ∃ b, 4 ≤ b ∧ map.capacity = 2 ^ b) {key : K} {i : Nat}
    (h : hashmapIndexof map key = some i) : i < map.capacity := by
  rw [indexof_eq_locate hp] at h
  exact locate_lt (home_lt (Nat.lt_of_lt_of_le (by decide) (capacity_ge hp)) key) h

/-- **`hashmap_alloc`**, for every size up to `2 ^ 62`: no shift overflows, the capacity is the
least power of two that is at least 16 and the size, and in every table of that capacity the masks
of `hashmap_indexof` reduce modulo the capacity, so its index is valid. -/
theorem hashmapAlloc_capacity {initialSize : Int} (h : initialSize ≤ 2 ^ 62) (hash : K → UInt64)
    (equals : K → K → Bool) :
    ∃ high, highestBit initialSize = some high ∧ 0 ≤ high ∧ high * 2 ≤ longMax ∧
      ∃ map : Hashmap K V, hashmapAlloc initialSize hash equals = some map ∧
        IsLeast {c : Nat | (∃ b, c = 2 ^ b) ∧ max initialSize 16 ≤ c} (hashmapCapacity map) ∧
        map.array.length = hashmapCapacity map ∧
        ∀ table : Hashmap K V, hashmapCapacity table = hashmapCapacity map →
          (∀ x, x &&& (table.capacity - 1) = x % table.capacity ∧
            x &&& (table.capacity - 1) < table.capacity) ∧
          ∀ key i, hashmapIndexof table key = some i → i < table.capacity := by
  obtain ⟨k, hk62, hloop, hk⟩ := exists_highestBitLoop h
  have hpos : (0 : Int) < 2 ^ k := Int.pow_pos (by decide)
  have hle : (2 : Int) ^ k ≤ 2 ^ 62 := by
    exact_mod_cast Nat.pow_le_pow_right (by decide : 0 < 2) hk62
  have hhigh : highestBit initialSize = some (2 ^ k / 2) := by
    simp [highestBit, hloop, Int.tdiv_eq_ediv_of_nonneg hpos.le]
  refine ⟨2 ^ k / 2, hhigh, by omega, by unfold longMax; omega, _, hashmapAlloc_eq hloop hash equals,
    isLeast_capacity hk, by simp [callocElements, hashmapCapacity], fun table htable => ?_⟩
  have hp : ∃ b, 4 ≤ b ∧ table.capacity = 2 ^ b := ⟨max k 4, Nat.le_max_right k 4, htable⟩
  refine ⟨fun x => ?_, fun key i hi => indexof_lt hp hi⟩
  rw [mask_eq_mod hp]
  exact ⟨rfl, Nat.mod_lt x (Nat.lt_of_lt_of_le (by decide) (capacity_ge hp))⟩

/-- 33 slots requested, 64 allocated. -/
theorem hashmapAlloc_capacity_33 :
    (33 : Int) ≤ 2 ^ 62 ∧
      ∃ map : Hashmap Nat Nat, hashmapAlloc 33 (fun _ => 7) (fun a b => a == b) = some map ∧
        hashmapCapacity map = 64 ∧
        IsLeast {c : Nat | (∃ b, c = 2 ^ b) ∧ max (33 : Int) 16 ≤ c} 64 := by
  obtain ⟨_, -, -, -, map, hmap, hleast, -, -⟩ :=
    hashmapAlloc_capacity (K := Nat) (V := Nat) (show (33 : Int) ≤ 2 ^ 62 by decide) (fun _ => 7)
      (fun a b => a == b)
  have hcap : hashmapCapacity map = 64 := by
    cases hmap
    rfl
  exact ⟨by decide, map, hmap, hcap, hcap ▸ hleast⟩

end TcpIp
