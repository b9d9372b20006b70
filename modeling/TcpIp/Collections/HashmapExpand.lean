import Mathlib.Data.Nat.Find
import TcpIp.Collections.HashmapRefine

/-!
# `hashmap_expand` of any table

The old table need not be sound: removals may have left broken probe chains, equal keys in two slots
and a wrong `size`. The new one is built by insertions into an empty table alone, in the order of the
old slots, so the last of several equal keys decides the value.

* `LastSlot`: the old slot whose value an equal key gets.
* `hashmapPutLowLoad`: a `put` that gives up where it would have to resize.
* `hashmap_expand_rebuilds`: the new table is sound, whatever the old one was.
-/

namespace TcpIp

open OpenAddressing

variable {K V : Type} [Inhabited K] [Inhabited V]

/-- Of the used slots whose key equals `key`, `i` is the one with the highest index. -/
structure LastSlot (map : Hashmap K V) (key : K) (i : Nat) : Prop where
  lt : i < map.capacity
  used : (map.slot i).used = true
  equal : map.equals key (map.slot i).key = true
  last : ∀ j, i < j → j < map.capacity → (map.slot j).used = true →
    map.equals key (map.slot j).key = false

/-- `hashmap_put`, but `none` instead of a call of `hashmap_expand`. -/
def hashmapPutLowLoad (map : Hashmap K V) (key : K) (data : V) : Option (Hashmap K V) :=
  if hashmapLoadFactor map > 70 then none else hashmapStore map key data

theorem putLowLoad_storesAtLowLoad : StoresAtLowLoad (hashmapPutLowLoad (K := K) (V := V)) := by
  intro map key data hload
  exact if_neg (Int.not_lt.mpr hload)

/-- A key that some used slot holds has a last slot. -/
theorem exists_lastSlot {map : Hashmap K V} {key : K} {i : Nat} (hi : i < map.capacity)
    (hu : (map.slot i).used = true) (he : map.equals key (map.slot i).key = true) :
    ∃ j, LastSlot map key j := by
  let holds j := j < map.capacity ∧ (map.slot j).used = true ∧
    map.equals key (map.slot j).key = true
  have hspec : holds (Nat.findGreatest holds map.capacity) :=
    Nat.findGreatest_spec (Nat.le_of_lt hi) ⟨hi, hu, he⟩
  refine ⟨_, hspec.1, hspec.2.1, hspec.2.2, fun j hj hlt hused => ?_⟩
  rw [← Bool.not_eq_true]
  intro heq
  exact Nat.findGreatest_is_greatest hj (Nat.le_of_lt hlt) ⟨hlt, hused, heq⟩

theorem LastSlot.unique {map : Hashmap K V} {key : K} {i j : Nat} (hi : LastSlot map key i)
    (hj : LastSlot map key j) : i = j := by
  rcases Nat.lt_trichotomy i j with hlt | heq | hlt
  · exact absurd hj.equal (by rw [hi.last j hlt hj.lt hj.used]; simp)
  · exact heq
  · exact absurd hi.equal (by rw [hj.last i hlt hi.lt hi.used]; simp)

/-- The last slot decides the entry in the finite map of the slots. -/
theorem LastSlot.lookup_toFinmap {map : Hashmap K V} (hl : Lawful map.hash map.equals)
    (hlen : map.array.length = map.capacity) {key : K} {i : Nat} (h : LastSlot map key i) :
    (map.toFinmap hl).lookup (KeyClass.mk hl key) = some (map.slot i).value := by
  have hi : i < map.array.length := hlen ▸ h.lt
  rw [Hashmap.toFinmap, array_split hi]
  refine FiniteMap.lookup_foldl_last h.used h.equal (fun el hel hu => ?_) ∅
  obtain ⟨j, hj, rfl⟩ := List.mem_iff_getElem.mp hel
  rw [List.length_drop] at hj
  have hlt : i + 1 + j < map.array.length := by omega
  rw [List.getElem_drop, ← slot_eq_getElem hlt] at hu ⊢
  exact h.last _ (by omega) (by omega) hu

/-- No other key has an entry. -/
theorem lookup_toFinmap_absent {map : Hashmap K V} (hl : Lawful map.hash map.equals)
    (hlen : map.array.length = map.capacity) {key : K}
    (h : ∀ i, i < map.capacity → (map.slot i).used = true →
      map.equals key (map.slot i).key = false) :
    (map.toFinmap hl).lookup (KeyClass.mk hl key) = none := by
  rw [Hashmap.toFinmap, FiniteMap.lookup_foldl_other, Finmap.lookup_empty]
  intro el hel hu
  obtain ⟨i, hi, rfl⟩ := List.mem_iff_getElem.mp hel
  rw [← slot_eq_getElem hi] at hu ⊢
  exact h i (by omega) hu

/-- **`hashmap_expand` rebuilds a sound table** from the used slots of any table, and no insertion
on the way resizes again. -/
theorem hashmap_expand_rebuilds {map : Hashmap K V}
    (hp : ∃ b, 4 ≤ b ∧ map.capacity = 2 ^ b) (hlen : map.array.length = map.capacity)
    (hl : Lawful map.hash map.equals) :
    ∃ map', hashmapExpand map = some map' ∧
      hashmapExpandWith hashmapPutLowLoad map = some map' ∧
      hashmapCapacity map' = 2 * map.capacity ∧
      (∀ key i, i < map.capacity → (map.slot i).used = true →
        map.equals key (map.slot i).key = true →
        ∃ j, LastSlot map key j ∧ hashmapContainsKey map' key = some true ∧
          hashmapGet map' key = some (map.slot j).value) ∧
      (∀ key, (∀ i, i < map.capacity → (map.slot i).used = true →
        map.equals key (map.slot i).key = false) →
        hashmapContainsKey map' key = some false ∧ hashmapGet map' key = some default) ∧
      (∀ i j, i < hashmapCapacity map' → j < hashmapCapacity map' →
        (map'.slot i).used = true → (map'.slot j).used = true →
        map.equals (map'.slot i).key (map'.slot j).key = true → i = j) ∧
      hashmapSize map' = map'.usedCount := by
  obtain ⟨map', hrun, hs', -, he', hcap', hfin⟩ := expandWith_toFinmap hl hp hlen rfl rfl
  have hlookup : ∀ key, map'.lookup key = (map.toFinmap hl).lookup (KeyClass.mk hl key) := by
    intro key
    rw [← hs'.lookup_toFinmap hl he', hfin]
  refine ⟨map', hrun _ (putN_storesAtLowLoad 1), hrun _ putLowLoad_storesAtLowLoad, hcap',
    fun key i hi hu he => ?_, fun key habsent => ?_, fun i j hi hj hui huj he => ?_, hs'.size_eq⟩
  · obtain ⟨j, hj⟩ := exists_lastSlot hi hu he
    have hsome : map'.lookup key = some (map.slot j).value := by
      rw [hlookup, hj.lookup_toFinmap hl hlen]
    refine ⟨j, hj, ?_, ?_⟩
    · rw [hs'.containsKey, hsome, Option.isSome_some]
    · rw [hs'.get, hsome, Option.getD_some]
  · rw [hs'.containsKey, hs'.get, hlookup, lookup_toFinmap_absent hl hlen habsent]
    exact ⟨rfl, rfl⟩
  · rw [← he'] at he
    exact hs'.chained.inj hi hj (occ_some.mpr ⟨hui, rfl⟩) (occ_some.mpr ⟨huj, rfl⟩) he

/-- All sixteen slots are used, each key is in two of them, and the size is wrong. -/
def sampleBroken : Hashmap Nat Nat :=
  { array := (List.range 16).map fun i => { used := true, key := i % 8, value := 100 + i },
    capacity := 16, size := -7, hash := fun _ => 7, equals := fun a b => a == b }

/-- The probe for an absent key goes round for ever in the old table. In the new one it ends, and a
key that was there twice has the later value. -/
theorem hashmap_expand_rebuilds_broken :
    hashmapGet sampleBroken 8 = none ∧
      ∃ map', hashmapExpand sampleBroken = some map' ∧ hashmapGet map' 3 = some 111 ∧
        hashmapContainsKey map' 8 = some false ∧ hashmapSize map' = map'.usedCount := by
  obtain ⟨map', hrun, -, -, hfound, habsent, -, hsize⟩ := @hashmap_expand_rebuilds Nat Nat _ _
    sampleBroken ⟨4, by decide, rfl⟩ (by decide) lawful_nat_collide
  obtain ⟨j, hj, -, hget⟩ := hfound 3 11 (by decide) (by decide) (by decide)
  have hlast : LastSlot sampleBroken 3 11 :=
    { lt := by decide
      used := by decide
      equal := by decide
      last := fun k hk hlt => (by decide : ∀ k < 16, 11 < k → (sampleBroken.slot k).used = true →
        sampleBroken.equals 3 (sampleBroken.slot k).key = false) k hlt hk }
  rw [hj.unique hlast] at hget
  exact ⟨by decide, map', hrun, hget, (habsent 8 (by decide)).1, hsize⟩

end TcpIp
