import TcpIp.CacheRun
import TcpIp.Collections.HashmapEntries
import TcpIp.Lib.Ledger
import TcpIp.Protocols.ArpKeys

/-!
# The end of the process (`destroy` of `src/main.c`)

`main` registers `destroy` with `atexit`, so it also runs in the state in which a call ends the
process. `arp_destroy` walks through the cache with the iterator and frees the key and the cell of
each entry.

* `World.allocated`: the blocks that the static variables keep alive, one key and one cell for each
  call of `add_to_arp_cache`. Nothing else than `destroy` frees one of them.
* `World.Owns`: each of the allocated keys and cells is in exactly one used slot.
* `destroy_frees_all`: after any calls, `destroy` reads no freed block, frees no block twice and no
  key of the stack, and leaves none of the blocks allocated.
-/

namespace TcpIp

open Bytes Prog World Cursor

/-! ## Blocks -/

inductive Block where
  /-- A key of `add_to_arp_cache`. -/
  | key (id : Nat)
  /-- A cell of `add_to_arp_cache`. -/
  | cell (id : Nat)
  /-- `arp_cache->array`. -/
  | array
  /-- `*arp_cache`. -/
  | map
  /-- `buffers[fi]` of `net_interface.c`. -/
  | buffer (fi : Nat)
  /-- The iterator of `arp_destroy`. -/
  | iterator
  /-- The block that its `key` points to. -/
  | keyOut
  /-- The block that its `cell` points to. -/
  | cellOut
deriving Repr, DecidableEq

/-- `free` of a key pointer; that of a local variable must not be freed. -/
def freeKey (key : KeyRef) (held : List Block) : Option (List Block) :=
  match key.loc with
  | .null => some held
  | .stack => none
  | .heap id => Ledger.give held (.key id)

def freeCell (cell : CellRef) (held : List Block) : Option (List Block) :=
  match cell with
  | none => some held
  | some id => Ledger.give held (.cell id)

/-- `*((uint64_t*)*key)`. -/
def readKey (key : KeyRef) (held : List Block) : Option (List Block) :=
  match key.loc with
  | .null | .stack => none
  | .heap id => Ledger.use held (.key id)

/-- `mac_fprint` of a cell. -/
def readCell (cell : CellRef) (held : List Block) : Option (List Block) :=
  match cell with
  | none => none
  | some id => Ledger.use held (.cell id)

/-- The body of the loop of `arp_destroy`: `out` is what `key` and `cell` point to, and
`hashmap_it_next` overwrites it with an entry, if there is one. -/
def arpDestroyEntry (state : (KeyRef × CellRef) × List Block) (item : Option (KeyRef × CellRef)) :
    Option ((KeyRef × CellRef) × List Block) := do
  let (out, held) := state
  let out := item.getD out
  let held ← readKey out.1 held
  let held ← readCell out.2 held
  let held ← freeKey out.1 held
  let held ← freeCell out.2 held
  return (out, held)

/-- `arp_destroy`. The loop ends within `capacity + 1` rounds. -/
def arpDestroy (past : Nat → HashmapElement KeyRef CellRef) (cache : ArpCache)
    (held : List Block) : Option (List Block) := do
  let held := .iterator :: .keyOut :: .cellOut :: held
  let it := hashmapItSetMap hashmapItAlloc cache.map
  let ((_, held), _) ← (hashmapItCalls past).forEach arpDestroyEntry
    (hashmapCapacity cache.map + 1) it ((⟨.null, 0⟩, none), held)
  Ledger.giveAll held [.keyOut, .cellOut, .iterator, .array, .map]

/-- The transmit buffers that are not `NULL`. -/
def NetInterface.bufferBlocks (net : NetInterface) : List Block :=
  ((List.range TUN_QUEUES).filter fun fi => (net.buffers.getD fi none).isSome).map .buffer

def netInterfaceDestroy (net : NetInterface) (held : List Block) : Option (List Block) :=
  (List.range TUN_QUEUES).foldlM (fun held fi =>
    if (net.buffers.getD fi none).isSome then Ledger.give held (.buffer fi) else some held) held

def destroy (past : Nat → HashmapElement KeyRef CellRef) (w : World) (held : List Block) :
    Option (List Block) := do
  let held ← arpDestroy past w.cache held
  netInterfaceDestroy w.net held

/-- The blocks of the cache: `calloc` was called once for each key and each cell. -/
def ArpCache.blocks (cache : ArpCache) : List Block :=
  (List.range cache.keys).map .key ++ (List.range cache.cells.length).map .cell ++ [.array, .map]

def World.allocated (w : World) : List Block := w.cache.blocks ++ w.net.bufferBlocks

/-! ## Entries -/

def KeyLoc.blocks : KeyLoc → List Block
  | .heap id => [.key id]
  | _ => []

def cellBlocks : CellRef → List Block
  | some id => [.cell id]
  | none => []

/-- The blocks of an entry. -/
def entryBlocks (e : KeyRef × CellRef) : List Block := e.1.loc.blocks ++ cellBlocks e.2

section Entries

variable {held rest : List Block} {e : KeyRef × CellRef}

/-- One round of the loop, on an entry with a key and a cell that are still allocated. -/
theorem arpDestroyEntry_of_perm (out : KeyRef × CellRef) {id n : Nat}
    (hkey : e.1.loc = .heap id) (hcell : e.2 = some n)
    (h : held.Perm (entryBlocks e ++ rest)) :
    ∃ held', arpDestroyEntry (out, held) (some e) = some (e, held') ∧ held'.Perm rest := by
  obtain ⟨⟨loc, val⟩, cell⟩ := e
  obtain rfl : loc = .heap id := hkey
  obtain rfl : cell = some n := hcell
  have hmem : ∀ b ∈ [Block.key id, Block.cell n], b ∈ held := fun b hb =>
    h.mem_iff.mpr (List.mem_append_left _ hb)
  obtain ⟨held₁, hfree₁, h₁⟩ := Ledger.give_of_perm
    (show held.Perm (.key id :: .cell n :: rest) from h)
  obtain ⟨held₂, hfree₂, h₂⟩ := Ledger.give_of_perm h₁
  refine ⟨held₂, ?_, h₂⟩
  simp [arpDestroyEntry, readKey, readCell, freeKey, freeCell, Ledger.use_of_mem (hmem _ _), hfree₁,
    hfree₂]

/-- The loop over entries whose keys and cells are all allocated frees them. -/
theorem foldlM_arpDestroyEntry (out : KeyRef × CellRef) {entries : List (KeyRef × CellRef)}
    (hblocks : ∀ e ∈ entries, ∃ id n, e.1.loc = .heap id ∧ e.2 = some n)
    (h : held.Perm (entries.flatMap entryBlocks ++ rest)) :
    ∃ out' held', entries.foldlM (fun state e => arpDestroyEntry state (some e)) (out, held) =
      some (out', held') ∧ held'.Perm rest := by
  induction entries generalizing out held with
  | nil => exact ⟨out, held, rfl, h⟩
  | cons e entries ih =>
    obtain ⟨id, n, hkey, hcell⟩ := hblocks e List.mem_cons_self
    rw [List.flatMap_cons, List.append_assoc] at h
    obtain ⟨held₁, hround, h₁⟩ := arpDestroyEntry_of_perm out hkey hcell h
    obtain ⟨out', held', hrun, h'⟩ := ih e (fun e he => hblocks e (List.mem_cons_of_mem _ he)) h₁
    exact ⟨out', held', by rw [List.foldlM_cons, hround]; exact hrun, h'⟩

end Entries

/-! ## The invariant -/

/-- Each allocated key and each allocated cell is in exactly one used slot. -/
structure World.Owns (host : ArpHost) (w : World) : Prop where
  up : w.Up host
  keys : w.cache.OwnsKeys
  count : w.cache.cells.length = w.cache.keys

/-- Keys and cells are allocated together. -/
theorem arpMerge_count {ip : UInt32} {msg : ArpMessage} {cache cache' : ArpCache}
    (hm : arpMerge ip msg cache = .ok cache') (h : cache.cells.length = cache.keys) :
    cache'.cells.length = cache'.keys := by
  -- A `put` changes the table only.
  have hput : ∀ {key : KeyRef} {cell : CellRef} {c : ArpCache}, cachePut key cell c = some cache' →
      cache'.cells = c.cells ∧ cache'.keys = c.keys := by
    intro key cell c hrun
    cases hmap : hashmapPut c.map key cell with
    | none => simp [cachePut, hmap] at hrun
    | some map =>
      have hcache : { c with map } = cache' := by simpa [cachePut, hmap] using hrun
      rw [← hcache]
      exact ⟨rfl, rfl⟩
  unfold arpMerge at hm
  split at hm
  · split at hm
    · cases hm
    · unfold setInArpCache at hm
      split at hm
      · cases hm
      · cases hm
      · split at hm
        · cases hm
        · rename_i hrun
          obtain ⟨hcells, hkeys⟩ := hput (hrun.trans (congrArg some (Except.ok.inj hm)))
          rw [hcells, hkeys, cacheCopy, List.length_set]
          exact h
    · split at hm
      · simp only [addToArpCache] at hm
        split at hm
        · cases hm
        · rename_i hrun
          obtain ⟨hcells, hkeys⟩ := hput (hrun.trans (congrArg some (Except.ok.inj hm)))
          rw [hcells, hkeys, cacheCalloc, List.length_append, h]
          rfl
      · rwa [← Except.ok.inj hm]
  · rwa [← Except.ok.inj hm]

section Owns

variable {host : ArpHost} {w w' : World}

theorem World.Owns.of_cache (h : w.Owns host) (hup : w'.Up host) (hcache : w'.cache = w.cache) :
    w'.Owns host :=
  ⟨hup, by rw [hcache]; exact h.keys, by rw [hcache]; exact h.count⟩

/-- One call, also one that ends the process. -/
theorem StackCall.run_owns (h : w.Owns host) (call : StackCall) : (call.run w).2.Owns host := by
  obtain ⟨hup, hsame | ⟨msg, hmerge⟩⟩ := StackCall.run_cache h.up call
  · exact h.of_cache hup hsame
  · exact ⟨hup, (h.keys.merge h.up.valid hmerge).1, arpMerge_count hmerge h.count⟩

theorem stackRun_owns (h : w.Owns host) (calls : List ((Obj → Nat → UInt8) × StackCall)) :
    (stackRun calls w).Owns host :=
  stackRun_invariant (I := fun w => w.Owns host)
    (fun _ mem h => h.of_cache (h.up.withMem mem) rfl) (fun _ call h => StackCall.run_owns h call)
    h calls

end Owns

/-! ## The blocks of the entries -/

section Blocks

variable {host : ArpHost} {w : World}

/-- The cells in the used slots, slot by slot, are the allocated ones in some order. -/
theorem World.Owns.cells (h : w.Owns host) :
    (w.cache.map.entries.map (·.2)).Perm ((List.range w.cache.cells.length).map some) := by
  have hv := h.up.valid
  have hs := hv.sound
  have hcell : ∀ {k v}, (k, v) ∈ w.cache.map.entries → ∃ n, v = some n ∧ n < w.cache.cells.length :=
    fun hmem => hv.cell (hs.lookup_of_mem_entries hmem)
  have hnodup : (w.cache.map.entries.map (·.2)).Nodup := by
    refine List.pairwise_map.mpr (hs.entries_pairwise.imp_of_mem fun {a b} ha hb hne heq => ?_)
    obtain ⟨n, hn, -⟩ := hcell ha
    -- A cell of two entries would make their keys equal.
    have hval : a.1.val = b.1.val := hv.inj (n := n)
      (by rw [hs.lookup_of_mem_entries ha, hn]) (by rw [hs.lookup_of_mem_entries hb, ← heq, hn])
    rw [hv.equals] at hne
    simp [arpEquals, hval] at hne
  have hsubset : w.cache.map.entries.map (·.2) ⊆ (List.range w.cache.cells.length).map some := by
    intro v hmem
    obtain ⟨⟨k, v⟩, he, rfl⟩ := List.mem_map.mp hmem
    obtain ⟨n, rfl, hn⟩ := hcell he
    exact List.mem_map_of_mem (List.mem_range.mpr hn)
  refine (hnodup.subperm hsubset).perm_of_length_le ?_
  rw [List.length_map, List.length_range, List.length_map, Hashmap.entries_length, h.keys.used,
    h.count]

/-- The entries hold every key and every cell once. -/
theorem World.Owns.entries (h : w.Owns host) :
    (w.cache.map.entries.flatMap entryBlocks).Perm
      ((List.range w.cache.keys).map .key ++ (List.range w.cache.cells.length).map .cell) := by
  have hlocs : w.cache.map.entries.map (·.1.loc) = w.cache.map.usedKeys.map (·.loc) := by
    simp [Hashmap.entries, usedEntries, Hashmap.usedKeys]
  have hkeys : (w.cache.map.entries.flatMap fun e => e.1.loc.blocks).Perm
      ((List.range w.cache.keys).map Block.key) := by
    have hperm := h.keys.flatMap_right KeyLoc.blocks
    rw [← hlocs, List.flatMap_map, List.flatMap_map] at hperm
    rwa [← List.flatMap_pure_eq_map]
  have hcells : (w.cache.map.entries.flatMap fun e => cellBlocks e.2).Perm
      ((List.range w.cache.cells.length).map Block.cell) := by
    have hperm := h.cells.flatMap_right cellBlocks
    rw [List.flatMap_map, List.flatMap_map] at hperm
    rwa [← List.flatMap_pure_eq_map]
  exact (List.flatMap_append_perm _ _ _).symm.trans (hkeys.append hcells)

/-- Every entry has an allocated key and a cell. -/
theorem World.Owns.entry (h : w.Owns host) {e : KeyRef × CellRef}
    (he : e ∈ w.cache.map.entries) : ∃ id n, e.1.loc = .heap id ∧ e.2 = some n := by
  obtain ⟨n, hn, -⟩ := h.up.valid.cell (h.up.valid.sound.lookup_of_mem_entries he)
  have hloc : e.1.loc ∈ w.cache.map.usedKeys.map (·.loc) := by
    obtain ⟨el, hel, hu, hkey, -⟩ := Hashmap.mem_entries.mp he
    exact List.mem_map.mpr ⟨e.1, List.mem_map.mpr ⟨el, List.mem_filter.mpr ⟨hel, hu⟩, hkey⟩, rfl⟩
  obtain ⟨id, -, hid⟩ := List.mem_map.mp (h.keys.mem_iff.mp hloc)
  exact ⟨id, n, hid.symm, hn⟩

end Blocks

/-! ## The end -/

section Destroy

variable {host : ArpHost} {w : World} {held rest : List Block}

theorem arpDestroy_spec (h : w.Owns host) (past : Nat → HashmapElement KeyRef CellRef)
    (hheld : held.Perm (w.cache.blocks ++ rest)) :
    ∃ held', arpDestroy past w.cache held = some held' ∧ held'.Perm rest := by
  have hs := h.up.valid.sound
  have hat : At w.cache.map (hashmapItSetMap hashmapItAlloc w.cache.map)
      (Position.start w.cache.map.entries) := ⟨rfl, rfl, rfl⟩
  have hfuel : w.cache.map.entries.length < hashmapCapacity w.cache.map + 1 := by
    rw [Hashmap.entries_length]
    exact Nat.lt_succ_of_lt hs.room
  have hperm : (.iterator :: .keyOut :: .cellOut :: held).Perm
      (w.cache.map.entries.flatMap entryBlocks ++
        ([.keyOut, .cellOut, .iterator, .array, .map] ++ rest)) := by
    refine List.perm_iff_count.mpr fun b => ?_
    have h₁ := hheld.count_eq b
    have h₂ := h.entries.count_eq b
    simp only [ArpCache.blocks, List.count_append, List.count_cons, List.count_nil] at h₁ h₂ ⊢
    omega
  obtain ⟨out', held₁, hfold, h₁⟩ := foldlM_arpDestroyEntry (⟨.null, 0⟩, none)
    (fun e he => h.entry he) hperm
  have hloop := (hashmapIt_simulates past hs.length).forEach ⟨hat, rfl⟩ arpDestroyEntry hfuel
    ((⟨.null, 0⟩, none), .iterator :: .keyOut :: .cellOut :: held)
  obtain ⟨⟨_, it⟩, hrun, rfl⟩ := Option.map_eq_some_iff.mp (hloop.trans hfold)
  obtain ⟨held₂, hgive, h₂⟩ := Ledger.giveAll_of_perm h₁
  refine ⟨held₂, ?_, h₂⟩
  simp only [arpDestroy, hrun, Option.bind_eq_bind, Option.bind_some]
  exact hgive

theorem netInterfaceDestroy_eq (net : NetInterface) (held : List Block) :
    netInterfaceDestroy net held = Ledger.giveAll held net.bufferBlocks := by
  unfold netInterfaceDestroy NetInterface.bufferBlocks
  generalize List.range TUN_QUEUES = fis
  induction fis generalizing held with
  | nil => rfl
  | cons fi fis ih =>
    rw [List.foldlM_cons]
    by_cases hfi : (net.buffers.getD fi none).isSome
    · simp only [hfi, if_true, List.filter_cons_of_pos, List.map_cons, Ledger.giveAll_cons]
      exact Option.bind_congr fun held' _ => ih held'
    · rw [if_neg hfi, List.filter_cons_of_neg (by exact hfi)]
      exact ih held

/-- **`destroy` frees everything once.** After any calls from the boot of a host, the last of which
may have ended the process, and whatever memory is behind the array of the cache: `destroy` uses no
block that is freed, frees none twice, and leaves no block of the static state allocated. -/
theorem destroy_frees_all (mem : Obj → Nat → UInt8) (host : ArpHost)
    (calls : List ((Obj → Nat → UInt8) × StackCall))
    (past : Nat → HashmapElement KeyRef CellRef) :
    ∃ cache, arpInit = some cache ∧
      destroy past (stackRun calls (World.boot mem host cache))
        (stackRun calls (World.boot mem host cache)).allocated = some [] := by
  obtain ⟨cache, hinit, hboot⟩ := boot_owns mem host
  have hcells : cache.cells = [] := by
    unfold arpInit at hinit
    obtain ⟨map, -, hcache⟩ := Option.bind_eq_some_iff.mp hinit
    rw [← Option.some.inj hcache]
  have howns := stackRun_owns (w := World.boot mem host cache) ⟨hboot.up, hboot.keys, by
    rw [show (World.boot mem host cache).cache.cells = [] from hcells,
      show (World.boot mem host cache).cache.keys = 0 from hboot.adds, List.length_nil]⟩ calls
  obtain ⟨held, hrun, hheld⟩ := arpDestroy_spec howns past (List.Perm.refl _)
  refine ⟨cache, hinit, ?_⟩
  unfold destroy
  rw [World.allocated, hrun]
  show netInterfaceDestroy _ held = some []
  rw [netInterfaceDestroy_eq]
  exact Ledger.giveAll_iff.mpr hheld

end Destroy

end TcpIp
