import Mathlib.Tactic.Common
import TcpIp.Basic
import TcpIp.Collections.HashmapRefine

/-!
# The ARP transition table (`src/protocols/arp.c`)

The cache is the hash map of `hashmap.c` with pointers to `uint64_t` keys and to six-byte cells. A
key pointer carries its location, so that the address of a local variable can be told from an
allocated key; a cell pointer is an index into the cells allocated so far, and a `memcpy` into a
cell is seen by every slot that points to it.

The operations are cut at the points where other threads can run (`cacheGet`, `cacheCopy`,
`cachePut`); `set_in_arp_cache` and `add_to_arp_cache` compose them.

`ArpCache.Valid` is the invariant of the cache and `ArpCache.lookup` the map it stands for.
`Valid.copy`, `Valid.calloc` and `Valid.put` say what each operation does to a valid cache;
`set_spec` and `add_spec`, that both writers update one entry of the map.
-/

namespace TcpIp

open OpenAddressing

/-- Where a key object lives. -/
inductive KeyLoc where
  | null
  | stack
  | heap (id : Nat)
deriving Repr, DecidableEq

/-- A pointer to a `uint64_t` key and the key it points to. -/
structure KeyRef where
  loc : KeyLoc
  val : UInt64
deriving Repr, DecidableEq

instance : Inhabited KeyRef := ⟨⟨.null, 0⟩⟩

/-- A pointer to a cell of six bytes; `none` is `NULL`. -/
abbrev CellRef := Option Nat

/-- `hash` of `arp.c`. -/
def arpHash (ptr : KeyRef) : UInt64 := ptr.val

/-- `equals` of `arp.c`. -/
def arpEquals (a b : KeyRef) : Bool := a.val == b.val

def toKey (proType : UInt16) (srcIp : UInt32) : UInt64 :=
  (proType.toUInt64 <<< 32) + srcIp.toUInt64

/-- `arp_cache` and the cells and keys allocated for it. -/
structure ArpCache where
  map : Hashmap KeyRef CellRef
  /-- The cells `calloc(6, sizeof(char))` returned, in order of allocation. -/
  cells : List Mac
  /-- The number of keys allocated. -/
  keys : Nat

def ARP_ETHERNET : UInt16 := 1
def ARP_IPV4 : UInt16 := 0x0800
def ARP_REQUEST : UInt16 := 1
def ARP_REPLY : UInt16 := 2
def ARP_CACHE_INITIAL_SIZE : Int := 16

def arpInit : Option ArpCache := do
  let map ← hashmapAlloc ARP_CACHE_INITIAL_SIZE arpHash arpEquals
  return { map, cells := [], keys := 0 }

/-- `to_key` in a local variable, passed by address. -/
def stackKey (proType : UInt16) (srcIp : UInt32) : KeyRef := ⟨.stack, toKey proType srcIp⟩

/-- `none`: the probe does not end. -/
def isInArpCache (proType : UInt16) (srcIp : UInt32) (cache : ArpCache) : Option Bool :=
  hashmapContainsKey cache.map (stackKey proType srcIp)

/-- `hashmap_get(arp_cache, &key)`. -/
def cacheGet (proType : UInt16) (srcIp : UInt32) (cache : ArpCache) : Option CellRef :=
  hashmapGet cache.map (stackKey proType srcIp)

/-- `memcpy(dst_mac, src_mac, 6)` into an allocated cell. -/
def cacheCopy (cell : Nat) (srcMac : Mac) (cache : ArpCache) : ArpCache :=
  { cache with cells := cache.cells.set cell srcMac }

/-- `hashmap_put(arp_cache, key, dst_mac)`. -/
def cachePut (key : KeyRef) (cell : CellRef) (cache : ArpCache) : Option ArpCache := do
  let map ← hashmapPut cache.map key cell
  return { cache with map }

/-- A key and a cell from `calloc`, the cell filled with `src_mac`. -/
def cacheCalloc (srcMac : Mac) (cache : ArpCache) : ArpCache :=
  { cache with cells := cache.cells ++ [srcMac], keys := cache.keys + 1 }

def setInArpCache (proType : UInt16) (srcIp : UInt32) (srcMac : Mac) (cache : ArpCache) :
    Except Stop ArpCache :=
  match cacheGet proType srcIp cache with
  | none => .error .hang
  | some none => .error .assertion
  | some (some cell) =>
    match cachePut (stackKey proType srcIp) (some cell) (cacheCopy cell srcMac cache) with
    | none => .error .hang
    | some cache => .ok cache

def addToArpCache (proType : UInt16) (srcIp : UInt32) (srcMac : Mac) (cache : ArpCache) :
    Except Stop ArpCache :=
  let dstKey : KeyRef := ⟨.heap cache.keys, toKey proType srcIp⟩
  match cachePut dstKey (some cache.cells.length) (cacheCalloc srcMac cache) with
  | none => .error .hang
  | some cache => .ok cache

/-! ## Keys -/

theorem lawful_arp : Lawful arpHash arpEquals where
  refl := by simp [arpEquals]
  symm h := by simpa [arpEquals] using (beq_iff_eq.mp h).symm
  trans h h' := by simpa [arpEquals] using (beq_iff_eq.mp h).trans (beq_iff_eq.mp h')
  home_eq := by simp [arpEquals, arpHash]

theorem toKey_toNat (proType : UInt16) (srcIp : UInt32) :
    (toKey proType srcIp).toNat = proType.toNat * 4294967296 + srcIp.toNat := by
  have h1 := proType.toNat_lt
  have h2 := srcIp.toNat_lt
  rw [toKey, UInt64.toNat_add, UInt64.toNat_shiftLeft, UInt16.toNat_toUInt64,
    UInt32.toNat_toUInt64]
  simp only [UInt64.reduceToNat, Nat.shiftLeft_eq, Nat.reduceMod, Nat.reducePow]
  omega

/-- Addresses under one protocol have different keys. -/
theorem toKey_inj {proType : UInt16} {a b : UInt32} : toKey proType a = toKey proType b ↔ a = b := by
  constructor
  · intro h
    have := congrArg UInt64.toNat h
    rw [toKey_toNat, toKey_toNat] at this
    exact UInt32.toNat_inj.mp (by omega)
  · rintro rfl; rfl

/-! ## The invariant -/

namespace ArpCache

/-- The MAC address cached for `ip`. -/
def lookup (cache : ArpCache) (ip : UInt32) : Option Mac := do
  let ref ← cache.map.lookup (stackKey ARP_IPV4 ip)
  let cell ← ref
  cache.cells[cell]?

/-- Every entry is that of an IPv4 address and has a cell of its own. -/
structure Valid (cache : ArpCache) : Prop where
  sound : cache.map.Sound
  hash : cache.map.hash = arpHash
  equals : cache.map.equals = arpEquals
  ipv4 : ∀ {k ref}, cache.map.lookup k = some ref → ∃ ip, k.val = toKey ARP_IPV4 ip
  cell : ∀ {k ref}, cache.map.lookup k = some ref → ∃ n, ref = some n ∧ n < cache.cells.length
  inj : ∀ {k k' n}, cache.map.lookup k = some (some n) → cache.map.lookup k' = some (some n) →
    k.val = k'.val

variable {cache : ArpCache}

theorem Valid.cell_lt (hv : cache.Valid) {k : KeyRef} {n : Nat}
    (h : cache.map.lookup k = some (some n)) : n < cache.cells.length := by
  obtain ⟨n', hn, hlt⟩ := hv.cell h
  rwa [Option.some.inj hn]

/-- What a cached address points to. -/
theorem Valid.exists_cell (hv : cache.Valid) {ip : UInt32} (h : (cache.lookup ip).isSome) :
    ∃ n mac, cache.map.lookup (stackKey ARP_IPV4 ip) = some (some n) ∧ n < cache.cells.length ∧
      cache.cells[n]? = some mac ∧ cache.lookup ip = some mac := by
  cases hl : cache.map.lookup (stackKey ARP_IPV4 ip) with
  | none => simp [lookup, hl] at h
  | some ref =>
    obtain ⟨n, rfl, hn⟩ := hv.cell hl
    exact ⟨n, cache.cells[n], rfl, hn, by simp [hn], by simp [lookup, hl, hn]⟩

theorem Valid.lookup_isSome (hv : cache.Valid) (ip : UInt32) :
    (cache.map.lookup (stackKey ARP_IPV4 ip)).isSome = (cache.lookup ip).isSome := by
  cases hl : cache.map.lookup (stackKey ARP_IPV4 ip) with
  | none => simp [lookup, hl]
  | some ref =>
    obtain ⟨n, rfl, hn⟩ := hv.cell hl
    simp [lookup, hl, hn]

theorem Valid.isIn (hv : cache.Valid) (ip : UInt32) :
    isInArpCache ARP_IPV4 ip cache = some (cache.lookup ip).isSome := by
  unfold isInArpCache
  rw [hv.sound.containsKey, hv.lookup_isSome]

theorem Valid.get (hv : cache.Valid) {ip : UInt32} {n : Nat}
    (h : cache.map.lookup (stackKey ARP_IPV4 ip) = some (some n)) :
    cacheGet ARP_IPV4 ip cache = some (some n) := by
  unfold cacheGet
  rw [hv.sound.get, h]
  rfl

/-- `hashmap_get` returns a cell exactly where the map has it. -/
theorem Valid.get_iff (hv : cache.Valid) {ip : UInt32} {n : Nat} :
    cacheGet ARP_IPV4 ip cache = some (some n) ↔
      cache.map.lookup (stackKey ARP_IPV4 ip) = some (some n) := by
  refine ⟨fun h => ?_, hv.get⟩
  unfold cacheGet at h
  rw [hv.sound.get, Option.some.injEq] at h
  cases hl : cache.map.lookup (stackKey ARP_IPV4 ip) with
  | none =>
    rw [hl] at h
    cases h
  | some ref =>
    rw [hl] at h
    exact congrArg some h

theorem Valid.copy (hv : cache.Valid) (cell : Nat) (srcMac : Mac) :
    (cacheCopy cell srcMac cache).Valid :=
  { hv with cell := fun hk => by simpa [cacheCopy] using hv.cell hk }

theorem Valid.calloc (hv : cache.Valid) (srcMac : Mac) : (cacheCalloc srcMac cache).Valid := by
  refine { hv with cell := fun hk => ?_ }
  obtain ⟨n, hn, hlt⟩ := hv.cell hk
  exact ⟨n, hn, by simp [cacheCalloc]; omega⟩

/-- `hashmap_put` of a cell that no other entry has. -/
theorem Valid.put (hv : cache.Valid) {key : KeyRef} {ip : UInt32} {n : Nat}
    (hkey : key.val = toKey ARP_IPV4 ip) (hn : n < cache.cells.length)
    (hfree : ∀ k, cache.map.lookup k = some (some n) → k.val = key.val) :
    ∃ map', cachePut key (some n) cache = some { cache with map := map' } ∧
      ArpCache.Valid { cache with map := map' } ∧
      ∀ k, map'.lookup k = if k.val = key.val then some (some n) else cache.map.lookup k := by
  obtain ⟨map', hput, hupd⟩ := hv.sound.put key (some n)
  have hlook := hupd.lookup
  simp only [hv.equals, arpEquals, beq_iff_eq] at hlook
  refine ⟨map', by simp [cachePut, hput], ⟨hupd.sound, hupd.hash.trans hv.hash,
    hupd.equals.trans hv.equals, fun {k ref} hk => ?_, fun {k ref} hk => ?_,
    fun {k k' n'} hk hk' => ?_⟩, hlook⟩
  · rw [hlook] at hk
    split at hk
    · rename_i h
      exact ⟨ip, h.trans hkey⟩
    · exact hv.ipv4 hk
  · rw [hlook] at hk
    split at hk
    · exact ⟨n, (Option.some.inj hk).symm, hn⟩
    · exact hv.cell hk
  · rw [hlook] at hk hk'
    split at hk <;> split at hk'
    · rename_i h1 h2
      rw [h1, h2]
    · rename_i h1 _
      obtain rfl := Option.some.inj (Option.some.inj hk)
      rw [h1, hfree k' hk']
    · rename_i _ h2
      obtain rfl := Option.some.inj (Option.some.inj hk')
      rw [h2, hfree k hk]
    · exact hv.inj hk hk'

/-- `set_in_arp_cache` of a cached address returns and overwrites its entry. -/
theorem Valid.set_spec (hv : cache.Valid) {ip : UInt32} (h : (cache.lookup ip).isSome)
    (srcMac : Mac) :
    ∃ cache', setInArpCache ARP_IPV4 ip srcMac cache = .ok cache' ∧ cache'.Valid ∧
      ∀ ip', cache'.lookup ip' = if ip' = ip then some srcMac else cache.lookup ip' := by
  obtain ⟨n, -, hmap, hn, -, -⟩ := hv.exists_cell h
  have hkey : (stackKey ARP_IPV4 ip).val = toKey ARP_IPV4 ip := rfl
  obtain ⟨map', hput, hv', hlook⟩ := (hv.copy n srcMac).put hkey
    (by simpa [cacheCopy] using hn) fun k hk => hv.inj hk hmap
  refine ⟨_, ?_, hv', fun ip' => ?_⟩
  · simp [setInArpCache, hv.get hmap, hput]
  · by_cases hip : ip' = ip
    · subst hip
      simp [lookup, hlook, cacheCopy, hn]
    · rw [if_neg hip]
      have hne : ¬ (stackKey ARP_IPV4 ip').val = (stackKey ARP_IPV4 ip).val := fun h =>
        hip (toKey_inj.mp h)
      simp only [lookup, hlook, if_neg hne, cacheCopy]
      cases hl : cache.map.lookup (stackKey ARP_IPV4 ip') with
      | none => rfl
      | some ref =>
        obtain ⟨n', rfl, -⟩ := hv.cell hl
        have hne : n ≠ n' := by
          rintro rfl
          exact hip (toKey_inj.mp (hv.inj hl hmap))
        simp [hne]

/-- `add_to_arp_cache` returns and stores an entry, new or not. -/
theorem Valid.add_spec (hv : cache.Valid) (ip : UInt32) (srcMac : Mac) :
    ∃ cache', addToArpCache ARP_IPV4 ip srcMac cache = .ok cache' ∧ cache'.Valid ∧
      ∀ ip', cache'.lookup ip' = if ip' = ip then some srcMac else cache.lookup ip' := by
  -- The fresh cell is not the cell of any older entry.
  have hfresh : ∀ k, cache.map.lookup k ≠ some (some cache.cells.length) :=
    fun k hk => Nat.lt_irrefl _ (hv.cell_lt hk)
  have hkey : KeyRef.val ⟨.heap cache.keys, toKey ARP_IPV4 ip⟩ = toKey ARP_IPV4 ip := rfl
  obtain ⟨map', hput, hv', hlook⟩ := (hv.calloc srcMac).put (n := cache.cells.length) hkey
    (by simp [cacheCalloc]) fun k hk => absurd hk (hfresh k)
  refine ⟨_, ?_, hv', fun ip' => ?_⟩
  · simp [addToArpCache, hput]
  · simp only [lookup, hlook, stackKey, toKey_inj, cacheCalloc]
    by_cases hip : ip' = ip
    · simp [hip]
    · simp only [hip, if_false]
      cases hl : cache.map.lookup ⟨.stack, toKey ARP_IPV4 ip'⟩ with
      | none => simp
      | some ref =>
        obtain ⟨n, rfl, hlt⟩ := hv.cell hl
        simp [List.getElem?_append_left hlt]

end ArpCache

/-- `arp_init` returns an empty cache. -/
theorem arpInit_spec : ∃ cache, arpInit = some cache ∧ cache.Valid ∧ ∀ ip, cache.lookup ip = none := by
  obtain ⟨map, hmap⟩ := Option.isSome_iff_exists.mp
    (hashmapAlloc_isSome (V := CellRef) (by decide : ARP_CACHE_INITIAL_SIZE ≤ 2 ^ 62)
      arpHash arpEquals)
  obtain ⟨hs, hh, he, hlook⟩ := hashmapAlloc_sound lawful_arp hmap
  refine ⟨{ map, cells := [], keys := 0 }, by simp [arpInit, hmap], ?_, fun ip => ?_⟩
  · exact ⟨hs, hh, he, fun hk => by simp [hlook] at hk, fun hk => by simp [hlook] at hk,
      fun hk => by simp [hlook] at hk⟩
  · simp [ArpCache.lookup, hlook]

end TcpIp
