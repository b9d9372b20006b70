import TcpIp.Collections.HashmapRefine
import TcpIp.Lib.Trace

/-!
# Removing keys from the hash map

`hashmap_remove` clears the slot where the probe ends and decrements `size`, used or not. Removing
breaks two things that the rest of the table relies on.

* Removing an absent key makes `size` smaller than the number of used slots, so the table may fill up
  without a resize, and a probe of a full table does not end. `Hashmap.Counted` is what is left of
  the invariant when only present keys are removed: it does not need the probing invariant, and it
  makes every probe end (`hashmap_probes_end`).
* Removing a present key makes the slot unused under the keys whose probes pass it, which are then
  not found (`indexof_remove`, `removesExactly_iff`).
-/

namespace TcpIp

open OpenAddressing

/-- The operations that change a map. -/
inductive HashmapCall (K V : Type) where
  | op (op : HashmapOp K V)
  | remove (key : K)

section

variable {K V : Type} [Inhabited K] [Inhabited V] {hash : K → UInt64} {equals : K → K → Bool}

/-- `none`: the call does not return. -/
def HashmapCall.step (map : Hashmap K V) : HashmapCall K V → Option (Hashmap K V)
  | .op o => o.run map
  | .remove key => hashmapRemove map key

/-- The table after the removal of the key whose probe ends at slot `i`. -/
def Hashmap.freed (map : Hashmap K V) (i : Nat) : Hashmap K V :=
  { map with
    array := map.array.set i { map.slot i with used := false }
    size := map.size - 1 }

theorem hashmapRemove_eq {map : Hashmap K V} {key : K} {i : Nat}
    (h : hashmapIndexof map key = some i) : hashmapRemove map key = some (map.freed i) := by
  rw [hashmapRemove, h]
  rfl

/-- What every operation keeps. -/
structure Hashmap.Shaped (map : Hashmap K V) (hash : K → UInt64) (equals : K → K → Bool) :
    Prop where
  pow : ∃ b, 4 ≤ b ∧ map.capacity = 2 ^ b
  length : map.array.length = map.capacity
  hash : map.hash = hash
  equals : map.equals = equals

/-- `size` counts the used slots, and one slot is unused. -/
structure Hashmap.Counted (map : Hashmap K V) (hash : K → UInt64) (equals : K → K → Bool) : Prop
    extends map.Shaped hash equals where
  size_eq : map.size = map.usedCount
  room : map.usedCount < map.capacity

/-! ## Shape -/

namespace Hashmap

variable {map map' : Hashmap K V}

theorem Sound.counted (hs : map.Sound) (hh : map.hash = hash) (he : map.equals = equals) :
    map.Counted hash equals :=
  ⟨⟨hs.pow, hs.length, hh, he⟩, hs.size_eq, hs.room⟩

namespace Shaped

omit [Inhabited K] [Inhabited V] in
theorem capacity_pos (hs : map.Shaped hash equals) : 0 < map.capacity :=
  Nat.lt_of_lt_of_le (by decide) (capacity_ge hs.pow)

/-- Where a probe ends. -/
theorem indexof_lt (hs : map.Shaped hash equals) {key : K} {i : Nat}
    (h : hashmapIndexof map key = some i) :
    i < map.capacity ∧ stops map.equals map.occ key i = true := by
  rw [indexof_eq_locate hs.pow] at h
  exact ⟨locate_lt (home_lt hs.capacity_pos key) h, locate_stops (home_lt hs.capacity_pos key) h⟩

omit [Inhabited K] [Inhabited V] in
/-- Writing a slot keeps the shape. -/
theorem set (hs : map.Shaped hash equals) (i : Nat) (el : HashmapElement K V) (size : Int) :
    Shaped { map with array := map.array.set i el, size := size } hash equals where
  pow := hs.pow
  length := by rw [List.length_set]; exact hs.length
  hash := hs.hash
  equals := hs.equals

/-- What `hashmap_expand` returns is sound, whatever removals have done to the table. -/
theorem expandWith (hl : Lawful hash equals) (hs : map.Shaped hash equals)
    {put : Hashmap K V → K → V → Option (Hashmap K V)} (hput : StoresAtLowLoad put) :
    ∃ map', hashmapExpandWith put map = some map' ∧ map'.Sound ∧ map'.Counted hash equals ∧
      map'.capacity = 2 * map.capacity ∧ map'.usedCount ≤ map.usedCount := by
  obtain ⟨map', hrun, hs', hh', he', hcap', hfin⟩ :=
    expandWith_toFinmap hl hs.pow hs.length hs.hash hs.equals
  refine ⟨map', hrun put hput, hs', hs'.counted hh' he', hcap', ?_⟩
  have hsize := hs'.size_toFinmap hl he'
  have hle := FiniteMap.card_keys_foldl_le map.array (∅ : FiniteMap hl V)
  rw [hs'.size_eq, hfin] at hsize
  rw [Finmap.keys_empty, Finset.card_empty, Nat.zero_add] at hle
  exact Int.ofNat_le.mp (by rw [hsize]; exact Int.ofNat_le.mpr hle)

/-- `hashmap_put` stores into the table, or into the one `hashmap_expand` returns. -/
theorem put_eq (hl : Lawful hash equals) (hs : map.Shaped hash equals) (key : K) (data : V) :
    ∃ map₁, hashmapPut map key data = hashmapStore map₁ key data ∧ map₁.Shaped hash equals ∧
      (map.Counted hash equals →
        map₁.Counted hash equals ∧ map₁.usedCount + 1 < map₁.capacity) := by
  by_cases hload : hashmapLoadFactor map > 70
  · obtain ⟨map₁, hrun, -, hc₁, hcap₁, hused₁⟩ := hs.expandWith hl (putN_storesAtLowLoad 0)
    refine ⟨map₁, ?_, hc₁.toShaped, fun hc => ⟨hc₁, ?_⟩⟩
    · unfold hashmapPut
      rw [hashmapPutN, if_pos hload, hrun]
      rfl
    · have := hc.room
      have := capacity_ge hs.pow
      omega
  · refine ⟨map, ?_, hs, fun hc => ⟨hc, room_of_loadFactor hs.pow hc.size_eq hload⟩⟩
    unfold hashmapPut
    rw [putN_storesAtLowLoad 1 map key data (by omega)]

theorem store (hs : map.Shaped hash equals) {key : K} {data : V}
    (h : hashmapStore map key data = some map') : map'.Shaped hash equals := by
  unfold hashmapStore at h
  obtain ⟨i, -, h⟩ := Option.bind_eq_some_iff.mp h
  dsimp only at h
  split at h
  · obtain rfl := Option.some.inj h
    exact hs.set i _ _
  · obtain rfl := Option.some.inj h
    exact hs.set i _ _

omit [Inhabited K] [Inhabited V] in
theorem clear (hs : map.Shaped hash equals) : (hashmapClear map).Shaped hash equals where
  pow := hs.pow
  length := by rw [hashmapClear, List.length_map]; exact hs.length
  hash := hs.hash
  equals := hs.equals

/-- Any call that returns keeps the shape. -/
theorem step (hl : Lawful hash equals) (hs : map.Shaped hash equals) {call : HashmapCall K V}
    (h : call.step map = some map') : map'.Shaped hash equals := by
  match call with
  | .op (.put key data) =>
    obtain ⟨map₁, hput, hs₁, -⟩ := hs.put_eq hl key data
    exact hs₁.store (hput.symm.trans h)
  | .op .clear =>
    obtain rfl := Option.some.inj h
    exact hs.clear
  | .op .expand =>
    obtain ⟨map₁, hrun, -, hc₁, -⟩ := hs.expandWith hl (putN_storesAtLowLoad 1)
    obtain rfl := Option.some.inj (hrun.symm.trans h)
    exact hc₁.toShaped
  | .remove key =>
    obtain ⟨i, hix, -⟩ := Option.bind_eq_some_iff.mp (show hashmapRemove map key = some map' from h)
    obtain rfl := Option.some.inj ((hashmapRemove_eq hix).symm.trans h)
    exact hs.set i _ _

end Shaped

/-! ## Counted tables -/

/-- The used slots after a used slot is freed. -/
theorem usedCount_freed {i : Nat} (h : i < map.array.length) (hu : (map.slot i).used = true) :
    (map.freed i).usedCount + 1 = map.usedCount := by
  have hmem := slot_mem h
  rw [slot_eq_getElem h] at hu hmem
  have hpos : 0 < map.array.countP (·.used) := List.countP_pos_iff.mpr ⟨_, hmem, hu⟩
  simp only [freed, usedCount, List.countP_set h, hu, if_true]
  simp only [Bool.false_eq_true, if_false]
  omega

namespace Counted

theorem exists_unused (hc : map.Counted hash equals) :
    ∃ i, i < map.capacity ∧ (map.slot i).used = false := by
  obtain ⟨i, hi, hu⟩ := TcpIp.exists_unused (show map.usedCount < map.array.length by
    rw [hc.length]; exact hc.room)
  exact ⟨i, by rwa [hc.length] at hi, hu⟩

/-- Every probe ends. -/
theorem indexof (hc : map.Counted hash equals) (key : K) : ∃ i, hashmapIndexof map key = some i := by
  obtain ⟨u, hu, hfree⟩ := hc.exists_unused
  rw [indexof_eq_locate hc.pow]
  exact exists_locate (home_lt hc.capacity_pos key) hu (occ_none.mpr hfree)

theorem store (hc : map.Counted hash equals) (key : K) (data : V)
    (hroom : map.usedCount + 1 < map.capacity) :
    ∃ map', hashmapStore map key data = some map' ∧ map'.Counted hash equals := by
  obtain ⟨i, hix⟩ := hc.indexof key
  have hlen : i < map.array.length := by
    rw [hc.length]
    exact (hc.indexof_lt hix).1
  cases hu : (map.slot i).used with
  | false =>
    have hused := usedCount_set_new hlen ⟨true, key, data⟩ hu rfl (map.size + 1)
    refine ⟨{ map with array := map.array.set i ⟨true, key, data⟩, size := map.size + 1 }, ?_,
      hc.set i _ _, ?_, ?_⟩
    · simp [hashmapStore, hix, hu]
    · rw [hused, Int.natCast_add]
      exact congrArg (· + 1) hc.size_eq
    · rw [hused]
      exact hroom
  | true =>
    have hused := usedCount_set_used hlen ⟨true, (map.slot i).key, data⟩ hu rfl map.size
    refine ⟨{ map with array := map.array.set i ⟨true, (map.slot i).key, data⟩ }, ?_,
      hc.set i _ map.size, ?_, ?_⟩
    · simp [hashmapStore, hix, hu]
    · rw [hused]
      exact hc.size_eq
    · rw [hused]
      exact hc.room

theorem put (hl : Lawful hash equals) (hc : map.Counted hash equals) (key : K) (data : V) :
    ∃ map', hashmapPut map key data = some map' ∧ map'.Counted hash equals := by
  obtain ⟨map₁, hput, -, h₁⟩ := hc.put_eq hl key data
  obtain ⟨hc₁, hroom⟩ := h₁ hc
  rw [hput]
  exact hc₁.store key data hroom

omit [Inhabited K] [Inhabited V] in
theorem clear (hc : map.Counted hash equals) : (hashmapClear map).Counted hash equals := by
  have hused : (hashmapClear map).usedCount = 0 := by
    simp [usedCount, hashmapClear, List.countP_eq_zero]
  refine ⟨hc.toShaped.clear, ?_, ?_⟩
  · rw [hused]
    rfl
  · rw [hused]
    exact hc.capacity_pos

/-- Removing a present key. -/
theorem remove (hc : map.Counted hash equals) {key : K}
    (h : hashmapContainsKey map key = some true) :
    ∃ map', hashmapRemove map key = some map' ∧ map'.Counted hash equals := by
  obtain ⟨i, hix⟩ := hc.indexof key
  have hlen : i < map.array.length := by
    rw [hc.length]
    exact (hc.indexof_lt hix).1
  have hu : (map.slot i).used = true := by simpa [hashmapContainsKey, hix] using h
  have hused := usedCount_freed hlen hu
  have hsize := hc.size_eq
  have hroom := hc.room
  refine ⟨map.freed i, hashmapRemove_eq hix, hc.set i _ _, ?_, ?_⟩
  · show map.size - 1 = _
    omega
  · show _ < map.capacity
    omega

end Counted

end Hashmap

/-! ## Runs that remove present keys only -/

/-- A key that is removed is one that `hashmap_contains_key` finds. -/
def RemovesPresent (map : Hashmap K V) : HashmapCall K V → Prop
  | .op _ => True
  | .remove key => hashmapContainsKey map key = some true

instance decidableRemovesPresent (map : Hashmap K V) :
    ∀ call, Decidable (RemovesPresent map call)
  | .op _ => isTrue trivial
  | .remove key => inferInstanceAs (Decidable (hashmapContainsKey map key = some true))

/-- A slot is unused, and the loop of `hashmap_indexof` ends in each of its callers. -/
structure Hashmap.ProbesEnd (map : Hashmap K V) : Prop where
  unused : ∃ i, i < map.capacity ∧ (map.slot i).used = false
  indexof : ∀ key, (hashmapIndexof map key).isSome
  containsKey : ∀ key, (hashmapContainsKey map key).isSome
  get : ∀ key, (hashmapGet map key).isSome
  put : ∀ key data, (hashmapPut map key data).isSome
  remove : ∀ key, (hashmapRemove map key).isSome

theorem Hashmap.Counted.probesEnd (hl : Lawful hash equals) {map : Hashmap K V}
    (hc : map.Counted hash equals) : map.ProbesEnd := by
  refine ⟨hc.exists_unused, fun key => ?_, fun key => ?_, fun key => ?_, fun key data => ?_,
    fun key => ?_⟩
  all_goals obtain ⟨i, hix⟩ := hc.indexof key
  · rw [hix]; rfl
  · rw [hashmapContainsKey, hix]; rfl
  · rw [hashmapGet, hashmapGetOrDefault, hix]; rfl
  · obtain ⟨map', hput, -⟩ := hc.put hl key data
    rw [hput]; rfl
  · rw [hashmapRemove, hix]; rfl

/-- One call of such a run. -/
theorem Hashmap.Counted.step (hl : Lawful hash equals) {map : Hashmap K V}
    (hc : map.Counted hash equals) {call : HashmapCall K V} (hg : RemovesPresent map call) :
    ∃ map', call.step map = some map' ∧ map'.Counted hash equals := by
  match call with
  | .op (.put key data) => exact hc.put hl key data
  | .op .clear => exact ⟨_, rfl, hc.clear⟩
  | .op .expand =>
    obtain ⟨map', hrun, -, hc', -⟩ := hc.expandWith hl (putN_storesAtLowLoad 1)
    exact ⟨map', hrun, hc'⟩
  | .remove key => exact hc.remove hg

/-- **Lookups end.** In a run from `hashmap_alloc` that removes present keys only, every call
returns, and in every state a slot is unused and every probe ends. -/
theorem hashmap_probes_end (hl : Lawful hash equals) {initialSize : Int} {map₀ : Hashmap K V}
    (h₀ : hashmapAlloc initialSize hash equals = some map₀) {calls : List (HashmapCall K V)}
    (hg : Trace.Allowed HashmapCall.step RemovesPresent map₀ calls) :
    (∃ map, Trace.run HashmapCall.step map₀ calls = some map) ∧
      Trace.Along HashmapCall.step Hashmap.ProbesEnd map₀ calls := by
  obtain ⟨hs₀, hh₀, he₀, -⟩ := hashmapAlloc_sound hl h₀
  obtain ⟨⟨map, hrun, -⟩, halong⟩ := Trace.run_of_allowed (I := fun map => map.Counted hash equals)
    (fun _ hc => hc.probesEnd hl) (fun _ _ hc hg => hc.step hl hg) (hs₀.counted hh₀ he₀) hg
  exact ⟨⟨map, hrun⟩, halong⟩

end

/-- Two colliding keys, the first of them removed. -/
theorem hashmap_probes_end_collide :
    ∃ map₀ map : Hashmap Nat Nat,
      hashmapAlloc 3 (fun _ => 7) (fun a b => a == b) = some map₀ ∧
      Trace.run HashmapCall.step map₀
        [.op (.put 1 10), .op (.put 2 20), .remove 1, .op (.put 2 30)] = some map := by
  let map₀ : Hashmap Nat Nat := ⟨callocElements 16, 16, 0, fun _ => 7, fun a b => a == b⟩
  have h₀ : hashmapAlloc 3 (fun _ => 7) (fun a b => a == b) = some map₀ := rfl
  have hallowed : Trace.Allowed HashmapCall.step RemovesPresent map₀
      [.op (.put 1 10), .op (.put 2 20), .remove 1, .op (.put 2 30)] := by decide +kernel
  obtain ⟨⟨map, hrun⟩, -⟩ := hashmap_probes_end lawful_nat_collide h₀ hallowed
  exact ⟨map₀, map, h₀, hrun⟩

/-- Four removals from the empty map, then 16 puts: the table of 16 slots is full, and the lookup of
another key does not end. -/
theorem hashmap_full_after_removes :
    Lawful (fun _ : Nat => (7 : UInt64)) (fun a b : Nat => a == b) ∧
    ∃ map₀ map : Hashmap Nat Nat, hashmapAlloc 16 (fun _ => 7) (fun a b => a == b) = some map₀ ∧
      Trace.run HashmapCall.step map₀ (List.replicate 4 (.remove 0) ++
        (List.range 16).map fun k => .op (.put k k)) = some map ∧
      (∀ i, i < map.capacity → (map.slot i).used = true) ∧ hashmapContainsKey map 16 = none := by
  let map₀ : Hashmap Nat Nat := ⟨callocElements 16, 16, 0, fun _ => 7, fun a b => a == b⟩
  have hend : ((Trace.run HashmapCall.step map₀ (List.replicate 4 (.remove 0) ++
      (List.range 16).map fun k => .op (.put k k))).map fun map =>
      decide (∀ i, i < map.capacity → (map.slot i).used = true) &&
        (hashmapContainsKey map 16).isNone) = some true := by
    decide +kernel
  obtain ⟨map, hrun, hmap⟩ := Option.map_eq_some_iff.mp hend
  rw [Bool.and_eq_true, decide_eq_true_eq, Option.isNone_iff_eq_none] at hmap
  exact ⟨lawful_nat_collide, map₀, map, rfl, hrun, hmap⟩

/-! ## What a removal does to the other keys -/

section

variable {K V : Type} [Inhabited K] [Inhabited V] {hash : K → UInt64} {equals : K → K → Bool}

namespace Hashmap

/-- The probe for `key` goes on past slot `i`. -/
def Passes (map : Hashmap K V) (key : K) (i : Nat) : Prop :=
  passes map.capacity (stops map.equals map.occ key) i map.capacity (map.home key) = true

instance (map : Hashmap K V) (key : K) (i : Nat) : Decidable (map.Passes key i) :=
  inferInstanceAs (Decidable (_ = true))

/-- `hashmap_remove` of `key` removes that key and nothing else. -/
def RemovesExactly (map : Hashmap K V) (key : K) : Prop :=
  ∃ map', hashmapRemove map key = some map' ∧ hashmapContainsKey map' key = some false ∧
    (∀ k, map.equals k key = false → hashmapContainsKey map' k = hashmapContainsKey map k ∧
      hashmapGet map' k = hashmapGet map k) ∧
    hashmapSize map' =
      if hashmapContainsKey map key = some true then hashmapSize map - 1 else hashmapSize map

/-- `key` is present, and the probes that pass its slot are those of absent keys. -/
def Removable (map : Hashmap K V) (key : K) : Prop :=
  ∃ i, hashmapIndexof map key = some i ∧ (map.slot i).used = true ∧
    ∀ k, map.equals k key = false → map.Passes k i → hashmapContainsKey map k = some false

variable {map : Hashmap K V} {i : Nat}

theorem slot_freed (h : i < map.array.length) (j : Nat) :
    (map.freed i).slot j = if j = i then { map.slot i with used := false } else map.slot j :=
  slot_set h _ _ j

/-- The freed slot stops every probe. -/
theorem stops_freed (h : i < map.array.length) (key : K) :
    stops map.equals (map.freed i).occ key =
      Function.update (stops map.equals map.occ key) i true := by
  funext j
  by_cases hij : j = i
  · subst hij
    rw [Function.update_self, stops, occ_none.mpr (by rw [slot_freed h, if_pos rfl])]
    rfl
  · rw [Function.update_of_ne hij]
    unfold stops occ
    rw [slot_freed h, if_neg hij]

namespace Shaped

/-- A probe that went past the freed slot ends there now, and no other changes. -/
theorem indexof_freed (hs : map.Shaped hash equals) (hi : i < map.capacity) (k : K) :
    hashmapIndexof (map.freed i) k =
      if map.Passes k i then some i else hashmapIndexof map k := by
  have hlen : i < map.array.length := by rwa [hs.length]
  have hloc : hashmapIndexof (map.freed i) k =
      scan map.capacity (Function.update (stops map.equals map.occ k) i true) map.capacity
        (map.home k) := by
    have hpow : ∃ b, 4 ≤ b ∧ (map.freed i).capacity = 2 ^ b := hs.pow
    rw [← stops_freed hlen]
    exact indexof_eq_locate hpow k
  rw [hloc, scan_update, indexof_eq_locate hs.pow]
  rfl

/-- A probe does not pass the slot where it ends. -/
theorem not_passes (hs : map.Shaped hash equals) {key : K} (h : hashmapIndexof map key = some i) :
    ¬ map.Passes key i := by
  intro hp
  have := stop_of_passes hp
  rw [(hs.indexof_lt h).2] at this
  cases this

end Shaped

/-- What a lookup answers, from the slot where its probe ends. -/
theorem lookup_at {k : K} (h : hashmapIndexof map k = some i) :
    hashmapContainsKey map k = some (map.slot i).used ∧
      hashmapGet map k = some (if (map.slot i).used then (map.slot i).value else default) := by
  rw [hashmapContainsKey, hashmapGet, hashmapGetOrDefault, h]
  exact ⟨rfl, rfl⟩

theorem get_of_absent {k : K} (h : hashmapContainsKey map k = some false) :
    hashmapGet map k = some default := by
  obtain ⟨j, hj, hu⟩ := Option.bind_eq_some_iff.mp h
  have hu' : (map.slot j).used = false := Option.some.inj hu
  rw [(lookup_at hj).2, hu']
  rfl

/-- **`hashmap_remove` removes exactly its key** when the key is present and no other present key
is found past its slot, and in no other case. -/
theorem removesExactly_iff (hl : Lawful hash equals) (hs : map.Shaped hash equals) (key : K) :
    map.RemovesExactly key ↔ map.Removable key := by
  constructor
  · rintro ⟨map', hrun, -, hothers, hsize⟩
    obtain ⟨i, hix, -⟩ := Option.bind_eq_some_iff.mp hrun
    obtain rfl := Option.some.inj ((hashmapRemove_eq hix).symm.trans hrun)
    obtain ⟨hi, -⟩ := hs.indexof_lt hix
    have hlen : i < map.array.length := by rwa [hs.length]
    refine ⟨i, hix, ?_, fun k hk hp => ?_⟩
    · -- `size` is decremented in any case.
      rw [(lookup_at hix).1] at hsize
      split at hsize
      · rename_i hu
        exact Option.some.inj hu
      · have : map.size - 1 = map.size := hsize
        omega
    · have hk' : hashmapIndexof (map.freed i) k = some i := by
        rw [hs.indexof_freed hi, if_pos hp]
      rw [← (hothers k hk).1, (lookup_at hk').1, slot_freed hlen, if_pos rfl]
  · rintro ⟨i, hix, hu, hothers⟩
    obtain ⟨hi, hstop⟩ := hs.indexof_lt hix
    have hlen : i < map.array.length := by rwa [hs.length]
    have hkey : map.equals key (map.slot i).key = true := by
      rw [stops, occ_some.mpr ⟨hu, rfl⟩] at hstop
      exact hstop
    have hfreed : ((map.freed i).slot i).used = false := by rw [slot_freed hlen, if_pos rfl]
    have hsame : hashmapIndexof (map.freed i) key = some i := by
      rw [hs.indexof_freed hi, if_neg (hs.not_passes hix), hix]
    refine ⟨map.freed i, hashmapRemove_eq hix, ?_, fun k hk => ?_, ?_⟩
    · rw [(lookup_at hsame).1, hfreed]
    · have hk' := hs.indexof_freed hi k
      by_cases hp : map.Passes k i
      · have habsent := hothers k hk hp
        rw [if_pos hp] at hk'
        rw [(lookup_at hk').1, (lookup_at hk').2, hfreed, habsent, get_of_absent habsent]
        exact ⟨rfl, rfl⟩
      · rw [if_neg hp] at hk'
        cases hj : hashmapIndexof map k with
        | none =>
          rw [hj] at hk'
          simp only [hashmapContainsKey, hashmapGet, hashmapGetOrDefault, hk', hj]
          exact ⟨rfl, rfl⟩
        | some j =>
          -- The probe of another key does not end at a used slot of `key`.
          have hji : j ≠ i := by
            rintro rfl
            have hkstop := (hs.indexof_lt hj).2
            rw [stops, occ_some.mpr ⟨hu, rfl⟩] at hkstop
            have hequal : map.equals k key = true := by
              rw [hs.equals] at hkstop hkey ⊢
              exact hl.trans hkstop (hl.symm hkey)
            rw [hk] at hequal
            cases hequal
          rw [hj] at hk'
          rw [(lookup_at hk').1, (lookup_at hk').2, (lookup_at hj).1, (lookup_at hj).2,
            slot_freed hlen, if_neg hji]
          exact ⟨rfl, rfl⟩
    · rw [(lookup_at hix).1, hu, if_pos rfl]
      rfl

end Hashmap

/-- **When a removal is exact**, in any map that any run reaches from `hashmap_alloc`. -/
theorem hashmap_remove_exact_iff (hl : Lawful hash equals) {initialSize : Int}
    {map₀ map : Hashmap K V} (h₀ : hashmapAlloc initialSize hash equals = some map₀)
    {calls : List (HashmapCall K V)} (hrun : Trace.run HashmapCall.step map₀ calls = some map)
    (key : K) : map.RemovesExactly key ↔ map.Removable key := by
  obtain ⟨hs₀, hh₀, he₀, -⟩ := hashmapAlloc_sound hl h₀
  have hs : map.Shaped hash equals :=
    Trace.run_invariant (I := fun map => map.Shaped hash equals) (fun _ _ _ hs h => hs.step hl h)
      (hs₀.counted hh₀ he₀).toShaped hrun
  exact Hashmap.removesExactly_iff hl hs key

end

theorem lawful_bool_collide :
    Lawful (fun _ : Bool => (7 : UInt64)) (fun a b : Bool => a == b) where
  refl := by simp
  symm := by simp
  trans := by simp
  home_eq := by simp

/-- Of two colliding keys, the one put last can be removed. -/
theorem hashmap_remove_exact_iff_last :
    ∃ map₀ map : Hashmap Bool Nat,
      hashmapAlloc 16 (fun _ => 7) (fun a b => a == b) = some map₀ ∧
      Trace.run HashmapCall.step map₀ [.op (.put true 1), .op (.put false 2)] = some map ∧
      map.RemovesExactly false := by
  let map₀ : Hashmap Bool Nat := ⟨callocElements 16, 16, 0, fun _ => 7, fun a b => a == b⟩
  have h₀ : hashmapAlloc 16 (fun _ => 7) (fun a b => a == b) = some map₀ := rfl
  have hend : ((Trace.run HashmapCall.step map₀ [.op (.put true 1), .op (.put false 2)]).map
      fun map => decide (hashmapIndexof map false = some 8 ∧ (map.slot 8).used = true ∧
        ∀ k, map.equals k false = false → map.Passes k 8 →
          hashmapContainsKey map k = some false)) = some true := by
    decide +kernel
  obtain ⟨map, hrun, hmap⟩ := Option.map_eq_some_iff.mp hend
  rw [decide_eq_true_eq] at hmap
  exact ⟨map₀, map, h₀, hrun, (hashmap_remove_exact_iff lawful_bool_collide h₀ hrun false).mpr
    ⟨8, hmap⟩⟩

/-- The key put first takes the other one with it, and the removal of an absent key counts. -/
theorem hashmap_remove_loses_key :
    Lawful (fun _ : Bool => (7 : UInt64)) (fun a b : Bool => a == b) ∧
    ∃ map₀ map map' map₁ : Hashmap Bool Nat,
      hashmapAlloc 16 (fun _ => 7) (fun a b => a == b) = some map₀ ∧
      Trace.run HashmapCall.step map₀ [.op (.put true 1), .op (.put false 2)] = some map ∧
      hashmapRemove map true = some map' ∧ hashmapContainsKey map false = some true ∧
      hashmapContainsKey map' false = some false ∧
      hashmapContainsKey map₀ true = some false ∧ hashmapRemove map₀ true = some map₁ ∧
      hashmapSize map₁ = -1 := by
  refine ⟨lawful_bool_collide, _, _, _, _, rfl, rfl, rfl, ?_, ?_, ?_, rfl, ?_⟩
  all_goals decide +kernel

end TcpIp
