import TcpIp.Collections.HashmapKeys
import TcpIp.Lib.Trace
import TcpIp.Run

/-!
# The key objects in the ARP cache

`set_in_arp_cache` passes `hashmap_put` the address of a local variable. The table must not keep it:
the variable is gone when the function returns.

* `ArpCache.OwnsKeys`: the used slots hold the keys that `add_to_arp_cache` has allocated, each in
  one slot.
* `SetsEntry`, `AddsEntry`: which of the two writers a message makes `arp_receive` call.
  `setInArpCache_slot`: the slot that the first of them writes.
* `arp_cache_owns_keys`: so it is after any sequence of ARP frames, and the `put` of
  `set_in_arp_cache` finds the key there.
-/

namespace TcpIp

open Bytes Prog World

/-- The key objects in the used slots, slot by slot, are the allocated ones in some order. -/
def ArpCache.OwnsKeys (cache : ArpCache) : Prop :=
  (cache.map.usedKeys.map (·.loc)).Perm ((List.range cache.keys).map .heap)

namespace ArpCache

variable {cache cache' : ArpCache} {ip : UInt32} {mac : Mac}

theorem OwnsKeys.used (h : cache.OwnsKeys) : cache.map.usedCount = cache.keys := by
  have hlen := h.length_eq
  rw [List.length_map, usedKeys_length, List.length_map, List.length_range] at hlen
  exact hlen

/-- `set_in_arp_cache` of a cached address leaves the keys alone. -/
theorem OwnsKeys.set (h : cache.OwnsKeys) (hv : cache.Valid) (hip : (cache.lookup ip).isSome)
    (hrun : setInArpCache ARP_IPV4 ip mac cache = .ok cache') :
    cache'.OwnsKeys ∧ cache'.keys = cache.keys := by
  obtain ⟨n, -, hmap, -, -, -⟩ := hv.exists_cell hip
  rw [setInArpCache, hv.get hmap] at hrun
  cases hput : hashmapPut cache.map (stackKey ARP_IPV4 ip) (some n) with
  | none => simp [cachePut, cacheCopy, hput] at hrun
  | some map' =>
    have hperm := hv.sound.put_usedKeys hput
    rw [hmap, Option.isSome_some, if_pos rfl] at hperm
    have hcache : cache' = { cacheCopy n mac cache with map := map' } := by
      simpa [cachePut, cacheCopy, hput, eq_comm] using hrun
    rw [hcache]
    exact ⟨(hperm.map _).trans h, rfl⟩

/-- `add_to_arp_cache` of a new address adds the key that it allocates. -/
theorem OwnsKeys.add (h : cache.OwnsKeys) (hv : cache.Valid) (hip : cache.lookup ip = none)
    (hrun : addToArpCache ARP_IPV4 ip mac cache = .ok cache') :
    cache'.OwnsKeys ∧ cache'.keys = cache.keys + 1 := by
  have hnone : (cache.map.lookup ⟨.heap cache.keys, toKey ARP_IPV4 ip⟩).isSome = false := by
    have hsame : cache.map.equals ⟨.heap cache.keys, toKey ARP_IPV4 ip⟩
        (stackKey ARP_IPV4 ip) = true := by
      rw [hv.equals]
      simp [arpEquals, stackKey]
    rw [hv.sound.lookup_congr hsame, hv.lookup_isSome, hip, Option.isSome_none]
  rw [addToArpCache] at hrun
  cases hput : hashmapPut cache.map ⟨.heap cache.keys, toKey ARP_IPV4 ip⟩
      (some cache.cells.length) with
  | none => simp [cachePut, cacheCalloc, hput] at hrun
  | some map' =>
    have hperm := hv.sound.put_usedKeys hput
    rw [hnone, if_neg Bool.false_ne_true] at hperm
    have hcache : cache' = { cacheCalloc mac cache with map := map' } := by
      simpa [cachePut, cacheCalloc, hput, eq_comm] using hrun
    rw [hcache]
    refine ⟨?_, rfl⟩
    have hrange : ((List.range (cache.keys + 1)).map KeyLoc.heap).Perm
        (.heap cache.keys :: (List.range cache.keys).map .heap) := by
      rw [List.range_succ, List.map_append]
      exact List.perm_append_comm
    exact ((hperm.map _).trans (h.cons _)).trans hrange.symm

end ArpCache

/-- `arp_receive` of the message calls `set_in_arp_cache`. -/
def SetsEntry (msg : ArpMessage) (cache : ArpCache) : Prop :=
  msg.Supported ∧ isInArpCache ARP_IPV4 msg.srcIp cache = some true

/-- `arp_receive` of the message, for the host `ip`, calls `add_to_arp_cache`. -/
def AddsEntry (ip : UInt32) (msg : ArpMessage) (cache : ArpCache) : Prop :=
  msg.Supported ∧ isInArpCache ARP_IPV4 msg.srcIp cache = some false ∧ msg.dstIp = ip

instance (ip : UInt32) (msg : ArpMessage) (cache : ArpCache) : Decidable (AddsEntry ip msg cache) :=
  inferInstanceAs (Decidable (_ ∧ _))

section Merge

variable {cache cache' : ArpCache} {ip : UInt32} {msg : ArpMessage}

theorem SetsEntry.merge (h : SetsEntry msg cache) (ip : UInt32) :
    arpMerge ip msg cache = setInArpCache ARP_IPV4 msg.srcIp msg.srcMac cache := by
  simp only [arpMerge, if_pos h.1, h.2]

theorem AddsEntry.merge (h : AddsEntry ip msg cache) :
    arpMerge ip msg cache = addToArpCache ARP_IPV4 msg.srcIp msg.srcMac cache := by
  simp only [arpMerge, if_pos h.1, h.2.1, if_pos h.2.2]

/-- Any other message leaves the cache alone. -/
theorem arpMerge_of_neither (hv : cache.Valid) (hset : ¬ SetsEntry msg cache)
    (hadd : ¬ AddsEntry ip msg cache) : arpMerge ip msg cache = .ok cache := by
  rw [arpMerge]
  by_cases hs : msg.Supported
  · rw [if_pos hs]
    cases hin : isInArpCache ARP_IPV4 msg.srcIp cache with
    | none =>
      rw [hv.isIn] at hin
      cases hin
    | some inCache =>
      cases inCache with
      | true => exact absurd ⟨hs, hin⟩ hset
      | false => exact if_neg fun hip => hadd ⟨hs, hin, hip⟩
  · rw [if_neg hs]

/-- What the `put` of `set_in_arp_cache` writes, and where: in a used slot the value alone. -/
theorem setInArpCache_slot {proType : UInt16} {mac : Mac}
    (hrun : setInArpCache proType ip mac cache = .ok cache') :
    ∃ table i n, hashmapPutTable cache.map = some table ∧
      hashmapPutSlot cache.map (stackKey proType ip) = some (table.slot i) ∧
      cache'.map.array = table.array.set i
        (if (table.slot i).used then { table.slot i with value := some n }
          else ⟨true, stackKey proType ip, some n⟩) := by
  unfold setInArpCache at hrun
  split at hrun
  · cases hrun
  · cases hrun
  · rename_i n hget
    cases hput : hashmapPut cache.map (stackKey proType ip) (some n) with
    | none => simp [cachePut, cacheCopy, hput] at hrun
    | some map' =>
      obtain rfl : { cacheCopy n mac cache with map := map' } = cache' := by
        simpa [cachePut, cacheCopy, hput] using hrun
      obtain ⟨table, i, htable, hslot, harray⟩ := hashmapPut_slot hput
      exact ⟨table, i, n, htable, hslot, harray⟩

/-- The cache operations for a message keep every key in its place and store the new one. -/
theorem ArpCache.OwnsKeys.merge (h : cache.OwnsKeys) (hv : cache.Valid)
    (hm : arpMerge ip msg cache = .ok cache') :
    cache'.OwnsKeys ∧
      cache'.keys = cache.keys + if AddsEntry ip msg cache then 1 else 0 := by
  by_cases hadd : AddsEntry ip msg cache
  · have hnone : cache.lookup msg.srcIp = none := by
      have hin := hadd.2.1
      rw [hv.isIn] at hin
      simpa using hin
    rw [hadd.merge] at hm
    rw [if_pos hadd]
    exact h.add hv hnone hm
  · rw [if_neg hadd]
    by_cases hset : SetsEntry msg cache
    · have hsome : (cache.lookup msg.srcIp).isSome := by
        have hin := hset.2
        rw [hv.isIn] at hin
        exact Option.some.inj hin
      rw [hset.merge] at hm
      exact h.set hv hsome hm
    · rw [arpMerge_of_neither hv hset hadd] at hm
      obtain rfl := Except.ok.inj hm
      exact ⟨h, rfl⟩

end Merge

/-! ## Sequences of frames -/

/-- The stack, and how often `add_to_arp_cache` was called. -/
structure ArpRun where
  world : World
  adds : Nat

/-- The message in the receive buffer. -/
def World.received (w : World) : ArpMessage := w.arpMessage (rxBuffer + 14)

/-- A frame is received: `arp_receive` runs on what the buffer holds then. -/
def arpRunStep (r : ArpRun) (buffer : Nat → UInt8) : Option ArpRun :=
  let w := r.world.withRx buffer
  match arpReceive rxBuffer w with
  | (.ok (), w') => some
      { world := w', adds := r.adds + if AddsEntry w.net.ip w.received w.cache then 1 else 0 }
  | (.error _, _) => none

/-- The stack is up and the cache owns its keys. -/
structure ArpRun.Owns (host : ArpHost) (r : ArpRun) : Prop where
  up : r.world.Up host
  keys : r.world.cache.OwnsKeys
  adds : r.world.cache.keys = r.adds

theorem ArpRun.Owns.step {host : ArpHost} {r : ArpRun} (h : r.Owns host) (buffer : Nat → UInt8) :
    ∃ r', arpRunStep r buffer = some r' ∧ r'.Owns host := by
  have hup := h.up.withRx buffer
  obtain ⟨cache', hm, hv', -⟩ := hup.valid.exists_merge (r.world.withRx buffer).net.ip
    (r.world.withRx buffer).received
  obtain ⟨w', hrun, rfl, hserves⟩ := arpReceive_spec hup.ready rxBuffer hm
  obtain ⟨hkeys, hadds⟩ := h.keys.merge hup.valid hm
  refine ⟨_, by rw [arpRunStep, hrun],
    ⟨hserves.ready, hserves.host_eq.trans hup.host, hv'⟩, hkeys, ?_⟩
  rw [hadds, ← h.adds]
  rfl

/-- The empty cache owns no key. -/
theorem boot_owns (mem : Obj → Nat → UInt8) (host : ArpHost) :
    ∃ cache, arpInit = some cache ∧ ArpRun.Owns host ⟨World.boot mem host cache, 0⟩ := by
  obtain ⟨cache, hinit, htracks⟩ := boot_tracks mem host
  cases hmap : (hashmapAlloc ARP_CACHE_INITIAL_SIZE arpHash arpEquals :
      Option (Hashmap KeyRef CellRef)) with
  | none => simp [arpInit, hmap] at hinit
  | some map =>
    have hcache : cache = { map, cells := [], keys := 0 } := by
      simpa [arpInit, hmap, eq_comm] using hinit
    obtain ⟨hs, -, -, hlook⟩ := hashmapAlloc_sound lawful_arp hmap
    refine ⟨cache, hinit, ⟨htracks.ready, htracks.host, htracks.valid⟩, ?_, ?_⟩
    · show cache.OwnsKeys
      rw [hcache, ArpCache.OwnsKeys, hs.usedKeys_nil hlook]
      exact List.Perm.refl _
    · show cache.keys = 0
      rw [hcache]

/-- **The cache stores no stack key.** After any sequence of ARP frames, whatever they hold, the
`put` of the next `set_in_arp_cache` writes a used slot, and the used slots hold the keys that
`add_to_arp_cache` has allocated, each in one slot. -/
theorem arp_cache_owns_keys (mem : Obj → Nat → UInt8) (host : ArpHost)
    (buffers : List (Nat → UInt8)) :
    ∃ cache r, arpInit = some cache ∧
      Trace.run arpRunStep ⟨World.boot mem host cache, 0⟩ buffers = some r ∧
      (∀ buffer, SetsEntry (r.world.withRx buffer).received r.world.cache →
        ∃ el, hashmapPutSlot r.world.cache.map
          (stackKey ARP_IPV4 (r.world.withRx buffer).received.srcIp) = some el ∧ el.used = true) ∧
      (r.world.cache.map.usedKeys.map (·.loc)).Perm ((List.range r.adds).map .heap) ∧
      r.world.cache.map.usedCount = r.adds := by
  obtain ⟨cache, hinit, hboot⟩ := boot_owns mem host
  obtain ⟨r, hrun, h⟩ := Trace.run_total (fun r buffer h => ArpRun.Owns.step h buffer) hboot buffers
  refine ⟨cache, r, hinit, hrun, fun buffer hsets => ?_, ?_, ?_⟩
  · apply h.up.valid.sound.putSlot_used
    rw [h.up.valid.lookup_isSome]
    have hin := hsets.2
    rw [h.up.valid.isIn] at hin
    exact Option.some.inj hin
  · rw [← h.adds]
    exact h.keys
  · rw [h.keys.used, h.adds]

end TcpIp
