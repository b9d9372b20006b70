import Mathlib.Tactic.Common
import TcpIp.Lib.OpenAddressing
import TcpIp.Collections.Hashmap

/-!
# Sound tables

`Hashmap.Sound` is the invariant of `hashmap.c`: a power-of-two capacity, the probing invariant of
`OpenAddressing.Chained`, a `size` that counts the used slots, and at least one unused slot. It
makes every probe end (`Sound.indexof`), and the table a partial function from keys to values
(`Hashmap.lookup`). The lemmas here say what each operation that does not resize the table does to
that function; `HashmapRefine` adds the operations that do.
-/

namespace TcpIp

open OpenAddressing

variable {K V : Type} [Inhabited K] [Inhabited V]

namespace Hashmap

/-- The slot where the probe for `key` starts. -/
def home (map : Hashmap K V) (key : K) : Nat := (map.hash key).toNat % map.capacity

/-- The occupancy of the table: the key of a used slot. -/
def occ (map : Hashmap K V) (i : Nat) : Option K :=
  if (map.slot i).used then some (map.slot i).key else none

/-- The number of used slots. -/
def usedCount (map : Hashmap K V) : Nat := map.array.countP (·.used)

/-- The value stored for `key`. -/
def lookup (map : Hashmap K V) (key : K) : Option V := do
  let index ← hashmapIndexof map key
  if (map.slot index).used then some (map.slot index).value else none

/-- The table invariant (module doc). -/
structure Sound (map : Hashmap K V) : Prop where
  pow : ∃ b, 4 ≤ b ∧ map.capacity = 2 ^ b
  length : map.array.length = map.capacity
  lawful : Lawful map.hash map.equals
  chained : Chained map.capacity map.home map.equals map.occ
  size_eq : map.size = map.usedCount
  room : map.usedCount < map.capacity

end Hashmap

/-! ## Slots -/

theorem slot_eq_getElem {map : Hashmap K V} {i : Nat} (h : i < map.array.length) :
    map.slot i = map.array[i] := by
  simp [Hashmap.slot, h]

theorem slot_mem {map : Hashmap K V} {i : Nat} (h : i < map.array.length) :
    map.slot i ∈ map.array := by
  rw [slot_eq_getElem h]; exact List.getElem_mem h

/-- The slots before and after slot `i`. -/
theorem array_split {map : Hashmap K V} {i : Nat} (h : i < map.array.length) :
    map.array = map.array.take i ++ map.slot i :: map.array.drop (i + 1) := by
  rw [slot_eq_getElem h]
  simp

/-- The slots after one of them is written. -/
theorem slot_set {map : Hashmap K V} {i : Nat} (h : i < map.array.length)
    (el : HashmapElement K V) (size : Int) (j : Nat) :
    ({ map with array := map.array.set i el, size := size } : Hashmap K V).slot j =
      if j = i then el else map.slot j := by
  simp only [Hashmap.slot, List.getD_eq_getElem?_getD, List.getElem?_set, h, if_true]
  by_cases hij : i = j
  · subst hij; simp
  · simp [hij, Ne.symm hij]

theorem occ_some {map : Hashmap K V} {i : Nat} {k : K} :
    map.occ i = some k ↔ (map.slot i).used = true ∧ (map.slot i).key = k := by
  unfold Hashmap.occ
  split <;> simp_all

theorem occ_none {map : Hashmap K V} {i : Nat} :
    map.occ i = none ↔ (map.slot i).used = false := by
  unfold Hashmap.occ
  split <;> simp_all

/-- Fewer used slots than slots: one is unused. -/
theorem exists_unused {map : Hashmap K V} (h : map.usedCount < map.array.length) :
    ∃ i, i < map.array.length ∧ (map.slot i).used = false := by
  by_contra hno
  have hall : ∀ el ∈ map.array, el.used = true := by
    intro el hel
    obtain ⟨i, hi, rfl⟩ := List.mem_iff_getElem.mp hel
    rw [← slot_eq_getElem hi]
    cases hu : (map.slot i).used with
    | true => rfl
    | false => exact absurd ⟨i, hi, hu⟩ hno
  unfold Hashmap.usedCount at h
  rw [List.countP_eq_length.mpr hall] at h
  exact absurd h (Nat.lt_irrefl _)

/-- The used slots after an unused slot becomes used. -/
theorem usedCount_set_new {map : Hashmap K V} {i : Nat} (h : i < map.array.length)
    (el : HashmapElement K V) (hu : (map.slot i).used = false) (hel : el.used = true) (size : Int) :
    ({ map with array := map.array.set i el, size := size } : Hashmap K V).usedCount =
      map.usedCount + 1 := by
  rw [slot_eq_getElem h] at hu
  simp [Hashmap.usedCount, List.countP_set h, hu, hel]

/-- The used slots after a used slot is overwritten. -/
theorem usedCount_set_used {map : Hashmap K V} {i : Nat} (h : i < map.array.length)
    (el : HashmapElement K V) (hu : (map.slot i).used = true) (hel : el.used = true) (size : Int) :
    ({ map with array := map.array.set i el, size := size } : Hashmap K V).usedCount =
      map.usedCount := by
  have hmem := slot_mem h
  rw [slot_eq_getElem h] at hu hmem
  have hpos : 0 < map.array.countP (·.used) := List.countP_pos_iff.mpr ⟨_, hmem, hu⟩
  simp only [Hashmap.usedCount, List.countP_set h, hu, hel, if_true]
  omega

/-! ## Probes -/

/-- Masking with `capacity - 1` is reduction modulo a power-of-two capacity. -/
theorem mask_eq_mod {c : Nat} (h : ∃ b, 4 ≤ b ∧ c = 2 ^ b) (x : Nat) : x &&& (c - 1) = x % c := by
  obtain ⟨b, -, rfl⟩ := h
  exact Nat.and_two_pow_sub_one_eq_mod x b

theorem capacity_ge {c : Nat} (h : ∃ b, 4 ≤ b ∧ c = 2 ^ b) : 16 ≤ c := by
  obtain ⟨b, hb, rfl⟩ := h
  calc 16 = 2 ^ 4 := rfl
    _ ≤ 2 ^ b := Nat.pow_le_pow_right (by decide) hb

omit [Inhabited K] [Inhabited V] in
theorem home_lt {map : Hashmap K V} (h : 0 < map.capacity) (key : K) :
    map.home key < map.capacity := Nat.mod_lt _ h

theorem indexofLoop_eq_scan {map : Hashmap K V} (hp : ∃ b, 4 ≤ b ∧ map.capacity = 2 ^ b) (key : K)
    (fuel index : Nat) :
    hashmapIndexofLoop map key fuel index =
      scan map.capacity (stops map.equals map.occ key) fuel index := by
  induction fuel generalizing index with
  | zero => rfl
  | succ fuel ih =>
    rw [hashmapIndexofLoop, scan, ih, mask_eq_mod hp]
    cases hu : (map.slot index).used with
    | false => simp [stops, occ_none.mpr hu]
    | true => simp [stops, occ_some.mpr ⟨hu, rfl⟩]

/-- `hashmap_indexof` is the probe of the open-addressing library. -/
theorem indexof_eq_locate {map : Hashmap K V} (hp : ∃ b, 4 ≤ b ∧ map.capacity = 2 ^ b) (key : K) :
    hashmapIndexof map key = locate map.capacity map.home map.equals map.occ key := by
  unfold hashmapIndexof
  rw [indexofLoop_eq_scan hp, mask_eq_mod hp]
  rfl

namespace Hashmap.Sound

variable {map : Hashmap K V}

theorem capacity_pos (hs : map.Sound) : 0 < map.capacity :=
  Nat.lt_of_lt_of_le (by decide) (capacity_ge hs.pow)

theorem lawful_home (hs : map.Sound) : Lawful map.home map.equals :=
  hs.lawful.comp fun h => h.toNat % map.capacity

theorem exists_unused (hs : map.Sound) :
    ∃ i, i < map.capacity ∧ (map.slot i).used = false := by
  obtain ⟨i, hi, hu⟩ := TcpIp.exists_unused (show map.usedCount < map.array.length by
    rw [hs.length]; exact hs.room)
  exact ⟨i, by rwa [hs.length] at hi, hu⟩

/-- Every probe ends inside the table: at an equal key, or at an unused slot when no used slot has
an equal key. -/
theorem indexof (hs : map.Sound) (key : K) :
    ∃ i, i < map.capacity ∧ hashmapIndexof map key = some i ∧
      ((map.slot i).used = true ∧ map.equals key (map.slot i).key = true ∨
        (map.slot i).used = false ∧ ∀ j, j < map.capacity → (map.slot j).used = true →
          map.equals key (map.slot j).key = false) := by
  have hk := home_lt hs.capacity_pos key
  obtain ⟨u, hu, hfree⟩ := hs.exists_unused
  obtain ⟨i, hi⟩ : ∃ i, locate map.capacity map.home map.equals map.occ key = some i :=
    exists_locate hk hu (occ_none.mpr hfree)
  refine ⟨i, locate_lt hk hi, by rw [indexof_eq_locate hs.pow, hi], ?_⟩
  have hstop := locate_stops hk hi
  cases hused : (map.slot i).used with
  | true =>
    unfold stops at hstop
    rw [occ_some.mpr ⟨hused, rfl⟩] at hstop
    exact .inl ⟨rfl, hstop⟩
  | false =>
    refine .inr ⟨rfl, fun j hj hju => ?_⟩
    exact hs.chained.locate_free hs.lawful_home hk hi (occ_none.mpr hused) hj
      (occ_some.mpr ⟨hju, rfl⟩)

/-- A used slot with an equal key is where the probe ends. -/
theorem indexof_of_used (hs : map.Sound) {key : K} {i : Nat} (hi : i < map.capacity)
    (hu : (map.slot i).used = true) (he : map.equals key (map.slot i).key = true) :
    hashmapIndexof map key = some i := by
  rw [indexof_eq_locate hs.pow]
  exact hs.chained.locate_of_mem hs.lawful_home (home_lt hs.capacity_pos key) hi
    (occ_some.mpr ⟨hu, rfl⟩) he

/-- `lookup` gives the value of the used slot with an equal key. -/
theorem lookup_of_used (hs : map.Sound) {key : K} {i : Nat} (hi : i < map.capacity)
    (hu : (map.slot i).used = true) (he : map.equals key (map.slot i).key = true) :
    map.lookup key = some (map.slot i).value := by
  simp [Hashmap.lookup, hs.indexof_of_used hi hu he, hu]

theorem lookup_none (hs : map.Sound) {key : K}
    (h : ∀ j, j < map.capacity → (map.slot j).used = true →
      map.equals key (map.slot j).key = false) : map.lookup key = none := by
  obtain ⟨i, hi, hix, ⟨hu, he⟩ | ⟨hu, -⟩⟩ := hs.indexof key
  · rw [h i hi hu] at he; cases he
  · simp [Hashmap.lookup, hix, hu]

/-- A stored value sits in a used slot with an equal key. -/
theorem exists_of_lookup (hs : map.Sound) {key : K} {v : V} (h : map.lookup key = some v) :
    ∃ i, i < map.capacity ∧ (map.slot i).used = true ∧
      map.equals key (map.slot i).key = true ∧ (map.slot i).value = v := by
  obtain ⟨i, hi, hix, ⟨hu, he⟩ | ⟨hu, -⟩⟩ := hs.indexof key
  · refine ⟨i, hi, hu, he, ?_⟩
    simpa [Hashmap.lookup, hix, hu] using h
  · simp [Hashmap.lookup, hix, hu] at h

/-- Equal keys have the same value. -/
theorem lookup_congr (hs : map.Sound) {k k' : K} (h : map.equals k k' = true) :
    map.lookup k = map.lookup k' := by
  cases hl : map.lookup k' with
  | some v =>
    obtain ⟨i, hi, hu, he, rfl⟩ := hs.exists_of_lookup hl
    exact hs.lookup_of_used hi hu (hs.lawful.trans h he)
  | none =>
    refine hs.lookup_none fun j hj hu => ?_
    cases he : map.equals k (map.slot j).key with
    | false => rfl
    | true =>
      have := hs.lookup_of_used hj hu (hs.lawful.trans (hs.lawful.symm h) he)
      rw [hl] at this; cases this

/-! ## Lookups -/

theorem containsKey (hs : map.Sound) (key : K) :
    hashmapContainsKey map key = some (map.lookup key).isSome := by
  obtain ⟨i, -, hix, -⟩ := hs.indexof key
  cases hu : (map.slot i).used <;> simp [hashmapContainsKey, Hashmap.lookup, hix, hu]

theorem getOrDefault (hs : map.Sound) (key : K) (dflt : V) :
    hashmapGetOrDefault map key dflt = some ((map.lookup key).getD dflt) := by
  obtain ⟨i, -, hix, -⟩ := hs.indexof key
  cases hu : (map.slot i).used <;> simp [hashmapGetOrDefault, Hashmap.lookup, hix, hu]

theorem get (hs : map.Sound) (key : K) :
    hashmapGet map key = some ((map.lookup key).getD default) :=
  hs.getOrDefault key default

theorem lgetOrDefault (hs : map.Sound) (key : K) (dflt : Unit → V) :
    hashmapLgetOrDefault map key dflt = some ((map.lookup key).getD (dflt ())) := by
  obtain ⟨i, -, hix, -⟩ := hs.indexof key
  cases hu : (map.slot i).used <;> simp [hashmapLgetOrDefault, Hashmap.lookup, hix, hu]

end Hashmap.Sound

/-! ## Storing an entry -/

/-- `map'` is `map` with `data` stored for `key`. -/
structure Hashmap.Updated (map map' : Hashmap K V) (key : K) (data : V) : Prop where
  sound : map'.Sound
  hash : map'.hash = map.hash
  equals : map'.equals = map.equals
  capacity : map.capacity ≤ map'.capacity
  lookup : ∀ k, map'.lookup k = if map.equals k key then some data else map.lookup k
  size : map'.size = map.size + if (map.lookup key).isSome then 0 else 1

/-- Lookups after one slot is written for `key`: the slot was unused, or had an equal key. -/
theorem lookup_of_slot_set {map map' : Hashmap K V} (hs : map.Sound) (hs' : map'.Sound)
    (heq : map'.equals = map.equals) (hcap : map'.capacity = map.capacity) {i : Nat}
    (hi : i < map.capacity) {key k₀ : K} {data : V}
    (hslot : ∀ j, map'.slot j = if j = i then ⟨true, k₀, data⟩ else map.slot j)
    (hk₀ : map.equals key k₀ = true)
    (hold : (map.slot i).used = true → map.equals key (map.slot i).key = true) (k : K) :
    map'.lookup k = if map.equals k key then some data else map.lookup k := by
  cases hk : map.equals k key with
  | true =>
    have he : map'.equals k (map'.slot i).key = true := by
      rw [heq]; simpa [hslot] using hs.lawful.trans hk hk₀
    simpa [hslot] using hs'.lookup_of_used (by rwa [hcap]) (by simp [hslot]) he
  | false =>
    have hne : map.equals k k₀ = false := by
      cases h : map.equals k k₀ with
      | false => rfl
      | true => rw [hs.lawful.trans h (hs.lawful.symm hk₀)] at hk; cases hk
    rw [if_neg (by simp)]
    cases hl : map.lookup k with
    | some v =>
      obtain ⟨j, hj, hu, he, rfl⟩ := hs.exists_of_lookup hl
      have hji : j ≠ i := by
        rintro rfl
        rw [hs.lawful.trans he (hs.lawful.symm (hold hu))] at hk; cases hk
      have he' : map'.equals k (map'.slot j).key = true := by
        rw [heq]; simpa [hslot, hji]
      simpa [hslot, hji] using hs'.lookup_of_used (by rwa [hcap]) (by simpa [hslot, hji]) he'
    | none =>
      refine hs'.lookup_none fun j hj hu => ?_
      rw [heq, hslot]
      by_cases hji : j = i
      · simpa [hji] using hne
      · rw [hslot, if_neg hji] at hu
        rw [if_neg hji]
        cases he : map.equals k (map.slot j).key with
        | false => rfl
        | true => rw [hs.lookup_of_used (by rwa [hcap] at hj) hu he] at hl; cases hl

/-- An equal key is stored: only its value changes. -/
theorem Hashmap.Sound.overwrite {map : Hashmap K V} (hs : map.Sound) {key : K} (data : V) {i : Nat}
    (hi : i < map.capacity) (hu : (map.slot i).used = true)
    (he : map.equals key (map.slot i).key = true) :
    map.Updated { map with array := map.array.set i ⟨true, (map.slot i).key, data⟩ } key data := by
  have hlen : i < map.array.length := by rwa [hs.length]
  have hslot := slot_set hlen ⟨true, (map.slot i).key, data⟩ map.size
  have hused := usedCount_set_used hlen ⟨true, (map.slot i).key, data⟩ hu rfl map.size
  have hocc : Hashmap.occ { map with array := map.array.set i ⟨true, (map.slot i).key, data⟩ } =
      map.occ := by
    funext j
    unfold Hashmap.occ
    rw [hslot]
    split
    · rename_i hji
      rw [hji, hu]
    · rfl
  have hs' : Hashmap.Sound
      { map with array := map.array.set i ⟨true, (map.slot i).key, data⟩ } :=
    { pow := hs.pow
      length := by simpa using hs.length
      lawful := hs.lawful
      chained := by rw [hocc]; exact hs.chained
      size_eq := by rw [hused]; exact hs.size_eq
      room := by rw [hused]; exact hs.room }
  exact
    { sound := hs', hash := rfl, equals := rfl, capacity := Nat.le_refl _
      lookup := lookup_of_slot_set hs hs' rfl rfl hi hslot he fun _ => he
      size := by simp [hs.lookup_of_used hi hu he] }

/-- The key is new: it takes the unused slot where its probe ended. -/
theorem Hashmap.Sound.insert {map : Hashmap K V} (hs : map.Sound) {key : K} (data : V) {i : Nat}
    (hi : i < map.capacity) (hix : hashmapIndexof map key = some i) (hu : (map.slot i).used = false)
    (hnone : map.lookup key = none) (hroom : map.usedCount + 1 < map.capacity) :
    map.Updated { map with array := map.array.set i ⟨true, key, data⟩, size := map.size + 1 }
      key data := by
  have hlen : i < map.array.length := by rwa [hs.length]
  have hslot := slot_set hlen ⟨true, key, data⟩ (map.size + 1)
  have hused := usedCount_set_new hlen ⟨true, key, data⟩ hu rfl (map.size + 1)
  have hocc : Hashmap.occ
      { map with array := map.array.set i ⟨true, key, data⟩, size := map.size + 1 } =
      put map.occ i key := by
    funext j
    unfold Hashmap.occ put
    rw [hslot, Function.update_apply]
    split <;> rfl
  have hs' : Hashmap.Sound
      { map with array := map.array.set i ⟨true, key, data⟩, size := map.size + 1 } :=
    { pow := hs.pow
      length := by simpa using hs.length
      lawful := hs.lawful
      chained := by
        rw [hocc]
        exact hs.chained.insert hs.lawful_home (home_lt hs.capacity_pos key)
          (by rw [← indexof_eq_locate hs.pow, hix]) (occ_none.mpr hu)
      size_eq := by rw [hused]; push_cast; rw [← hs.size_eq]
      room := by rw [hused]; exact hroom }
  exact
    { sound := hs', hash := rfl, equals := rfl, capacity := Nat.le_refl _
      lookup := lookup_of_slot_set hs hs' rfl rfl hi hslot (hs.lawful.refl key)
        fun h => by rw [hu] at h; cases h
      size := by simp [hnone] }

/-- `hashmap_put` from the probe on, with room for one more key. -/
theorem Hashmap.Sound.store {map : Hashmap K V} (hs : map.Sound) (key : K) (data : V)
    (hroom : map.usedCount + 1 < map.capacity) :
    ∃ map', hashmapStore map key data = some map' ∧ map'.capacity = map.capacity ∧
      map.Updated map' key data := by
  obtain ⟨i, hi, hix, hcase⟩ := hs.indexof key
  obtain ⟨hu, he⟩ | ⟨hu, habs⟩ := hcase
  · refine ⟨_, ?_, ?_, hs.overwrite data hi hu he⟩
    · simp [hashmapStore, hix, hu]
    · rfl
  · refine ⟨_, ?_, ?_, hs.insert data hi hix hu (hs.lookup_none habs) hroom⟩
    · simp [hashmapStore, hix, hu]
    · rfl

end TcpIp
