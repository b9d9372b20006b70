import TcpIp.Collections.HashmapRefine
import TcpIp.Lib.Blocks

/-!
# The writes of `hashmap_put`

`hashmap_put` and `hashmap_expand` as the list of their writes to memory, in the order of the
source: what another thread can see in between. The caller holds a lock, so nobody else writes, and
what it reads is what it has written itself.

* `putScriptN`: `hashmapPutN`, with the writes (`putScriptN_map`).
* `putScriptN_goes`: memory after these writes shows the table that `hashmapPutN` gives, and no
  block but its array and that of the old table was touched.
* `putScriptN_length`: how many they are at most.
* `hashmap_puts_in_memory`: over a whole run, nothing but the array of the table is allocated.
-/

namespace TcpIp

open OpenAddressing Blocks

/-! ## Memory -/

/-- `*map`, without its two functions, and the heap of its arrays. -/
structure MapMemory (K V : Type) where
  heap : Heap (HashmapElement K V)
  /-- The block `map->array`. -/
  array : Nat
  capacity : Nat
  size : Int

/-- A write; `a` is a block, `i` an index. -/
inductive MapWrite (K V : Type) where
  | calloc (n : Nat)
  | array (a : Nat)
  | size (n : Int)
  | capacity (n : Nat)
  | value (a i : Nat) (data : V)
  | key (a i : Nat) (key : K)
  | used (a i : Nat)
  | free (a : Nat)
deriving Repr, DecidableEq

variable {K V : Type} [Inhabited K] [Inhabited V]

namespace MapMemory

def element (mem : MapMemory K V) (a i : Nat)
    (f : HashmapElement K V → HashmapElement K V) : Option (MapMemory K V) :=
  (mem.heap.modify a i f).map fun heap => { mem with heap }

def write (mem : MapMemory K V) : MapWrite K V → Option (MapMemory K V)
  | .calloc n => some { mem with heap := (mem.heap.alloc (callocElements n)).1 }
  | .array a => some { mem with array := a }
  | .size n => some { mem with size := n }
  | .capacity n => some { mem with capacity := n }
  | .value a i data => mem.element a i fun el => { el with value := data }
  | .key a i key => mem.element a i fun el => { el with key }
  | .used a i => mem.element a i fun el => { el with used := true }
  | .free a => (mem.heap.free a).map fun heap => { mem with heap }

def writes (mem : MapMemory K V) (ws : List (MapWrite K V)) : Option (MapMemory K V) :=
  ws.foldlM write mem

end MapMemory

/-! ## The writes of a call -/

/-- The table so far, with its array, the next free block number, and the writes so far. -/
structure MapScript (K V : Type) where
  map : Hashmap K V
  array : Nat
  next : Nat
  writes : List (MapWrite K V)

/-- The writes of `hashmap_put` from the probe on, which ended at `index`. -/
def storeWrites (s : MapScript K V) (index : Nat) (key : K) (data : V) : List (MapWrite K V) :=
  .value s.array index data ::
    if (s.map.slot index).used then []
    else [.key s.array index key, .used s.array index, .size (s.map.size + 1)]

def storeScript (s : MapScript K V) (key : K) (data : V) : Option (MapScript K V) := do
  let index ← hashmapIndexof s.map key
  let map ← hashmapStore s.map key data
  return { s with map, writes := s.writes ++ storeWrites s index key data }

/-- The table that `hashmap_expand` starts to fill. -/
def MapScript.doubled (s : MapScript K V) : MapScript K V :=
  { map := s.map.doubled
    array := s.next
    next := s.next + 1
    writes := s.writes ++ [.calloc (2 * s.map.capacity), .array s.next, .size 0,
      .capacity (2 * s.map.capacity)] }

def reinsertScript (put : MapScript K V → K → V → Option (MapScript K V)) (s : MapScript K V)
    (element : HashmapElement K V) : Option (MapScript K V) :=
  if element.used then put s element.key element.value else some s

/-- `hashmapExpandWith`, and at last `free(old)`. -/
def expandScriptWith (put : MapScript K V → K → V → Option (MapScript K V)) (s : MapScript K V) :
    Option (MapScript K V) :=
  (s.map.array.foldlM (reinsertScript put) s.doubled).map fun s' =>
    { s' with writes := s'.writes ++ [.free s.array] }

def putScriptN : Nat → MapScript K V → K → V → Option (MapScript K V)
  | 0, _, _, _ => none
  | depth + 1, s, key, data => do
    let s ← if hashmapLoadFactor s.map > 70 then expandScriptWith (putScriptN depth) s else some s
    storeScript s key data

/-- `*map`. -/
def MapMemory.table (mem : MapMemory K V) (hash : K → UInt64) (equals : K → K → Bool) :
    Hashmap K V :=
  { array := (mem.heap.block mem.array).getD [], capacity := mem.capacity, size := mem.size, hash,
    equals }

def MapMemory.script (mem : MapMemory K V) (hash : K → UInt64) (equals : K → K → Bool) :
    MapScript K V :=
  { map := mem.table hash equals, array := mem.array, next := mem.heap.blocks.length, writes := [] }

/-- The table of `hashmap_alloc` in memory. -/
def Hashmap.memory (map : Hashmap K V) : MapMemory K V :=
  { heap := ⟨[some map.array]⟩, array := 0, capacity := map.capacity, size := map.size }

/-- `hashmap_put` in memory. -/
def MapMemory.put (mem : MapMemory K V) (hash : K → UInt64) (equals : K → K → Bool) (key : K)
    (data : V) : Option (MapMemory K V) :=
  (putScriptN 2 (mem.script hash equals) key data).bind fun script => mem.writes script.writes

def MapMemory.putAll (mem : MapMemory K V) (hash : K → UInt64) (equals : K → K → Bool)
    (puts : List (K × V)) : Option (MapMemory K V) :=
  puts.foldlM (fun mem entry => mem.put hash equals entry.1 entry.2) mem

/-! ## They are the writes of `hashmap_put` -/

theorem storeScript_map (s : MapScript K V) (key : K) (data : V) :
    (storeScript s key data).map (·.map) = hashmapStore s.map key data := by
  cases hindex : hashmapIndexof s.map key with
  | none => simp [storeScript, hashmapStore, hindex]
  | some index =>
    cases hstore : hashmapStore s.map key data with
    | none => simp [storeScript, hindex, hstore]
    | some map => simp [storeScript, hindex, hstore]

omit [Inhabited K] [Inhabited V] in
theorem reinsertScript_map {put : MapScript K V → K → V → Option (MapScript K V)}
    {put' : Hashmap K V → K → V → Option (Hashmap K V)}
    (hput : ∀ s key data, (put s key data).map (·.map) = put' s.map key data)
    (l : List (HashmapElement K V)) (s : MapScript K V) :
    (l.foldlM (reinsertScript put) s).map (·.map) = l.foldlM (hashmapReinsert put') s.map := by
  induction l generalizing s with
  | nil => rfl
  | cons el l ih =>
    rw [List.foldlM_cons, List.foldlM_cons]
    unfold reinsertScript hashmapReinsert
    split
    · have hel := hput s el.key el.value
      cases hs : put s el.key el.value with
      | none =>
        rw [hs] at hel
        rw [← hel]
        rfl
      | some s' =>
        rw [hs] at hel
        rw [← hel]
        exact ih s'
    · exact ih s

theorem putScriptN_map (depth : Nat) (s : MapScript K V) (key : K) (data : V) :
    (putScriptN depth s key data).map (·.map) = hashmapPutN depth s.map key data := by
  induction depth generalizing s key data with
  | zero => rfl
  | succ depth ih =>
    rw [putScriptN, hashmapPutN]
    split
    · have hloop := reinsertScript_map ih s.map.array s.doubled
      unfold expandScriptWith hashmapExpandWith
      cases hs : s.map.array.foldlM (reinsertScript (putScriptN depth)) s.doubled with
      | none =>
        rw [hs] at hloop
        rw [show s.map.doubled = s.doubled.map from rfl, ← hloop]
        rfl
      | some s' =>
        rw [hs] at hloop
        rw [show s.map.doubled = s.doubled.map from rfl, ← hloop]
        exact storeScript_map _ key data
    · exact storeScript_map s key data

/-! ## Memory after the writes -/

/-- Memory shows the table of `s`. -/
structure MapMemory.Shows (mem : MapMemory K V) (s : MapScript K V) : Prop where
  array : mem.array = s.array
  block : mem.heap.block s.array = some s.map.array
  capacity : mem.capacity = s.map.capacity
  size : mem.size = s.map.size
  next : mem.heap.blocks.length = s.next

/-- A power of two slots, as `capacity` says. -/
def Hashmap.Fits (map : Hashmap K V) : Prop :=
  (∃ b, 4 ≤ b ∧ map.capacity = 2 ^ b) ∧ map.array.length = map.capacity

/-- From the table of `s` to that of `s'`, in the same array or in a new one. -/
structure MapMemory.Goes (mem : MapMemory K V) (s : MapScript K V) (mem' : MapMemory K V)
    (s' : MapScript K V) : Prop where
  shows : mem'.Shows s'
  fits : s'.map.Fits
  next : s.next ≤ s'.next
  array : s'.array = s.array ∨ s.next ≤ s'.array
  /-- Nothing else is allocated or written, and an array that is left is freed. -/
  rest : ∀ b, b ≠ s'.array →
    mem'.heap.block b = if b = s.array then none else mem.heap.block b

/-- The table with another element in slot `i`. -/
def MapScript.set (s : MapScript K V) (i : Nat) (el : HashmapElement K V) : MapScript K V :=
  { s with map := { s.map with array := s.map.array.set i el } }

/-- A write to the table itself, and what it makes of it. -/
def MapWrite.Local (s : MapScript K V) : MapWrite K V → Prop
  | .value a i _ | .key a i _ | .used a i => a = s.array ∧ i < s.map.array.length
  | .size _ => True
  | .calloc _ | .array _ | .capacity _ | .free _ => False

def MapScript.apply (s : MapScript K V) : MapWrite K V → MapScript K V
  | .value _ i data => s.set i { s.map.slot i with value := data }
  | .key _ i key => s.set i { s.map.slot i with key }
  | .used _ i => s.set i { s.map.slot i with used := true }
  | .size n => { s with map := { s.map with size := n } }
  | .calloc _ | .array _ | .capacity _ | .free _ => s

section Shows

variable {mem mem' mem₀ mem₁ mem₂ : MapMemory K V} {s s' s₁ s₂ : MapScript K V} {w : MapWrite K V}
  {i index : Nat} {key : K} {data : V}

theorem MapMemory.writes_cons (mem : MapMemory K V) (w : MapWrite K V) (ws : List (MapWrite K V)) :
    mem.writes (w :: ws) = (mem.write w).bind fun mem => mem.writes ws :=
  List.foldlM_cons

theorem MapMemory.writes_append (mem : MapMemory K V) (ws ws' : List (MapWrite K V)) :
    mem.writes (ws ++ ws') = (mem.writes ws).bind fun mem => mem.writes ws' :=
  List.foldlM_append ..

/-- A write to a slot of the table. -/
theorem MapMemory.Shows.element (h : mem.Shows s) (hi : i < s.map.array.length)
    (f : HashmapElement K V → HashmapElement K V) :
    ∃ mem', mem.element s.array i f = some mem' ∧ mem'.Shows (s.set i (f (s.map.slot i))) ∧
      ∀ b, b ≠ s.array → mem'.heap.block b = mem.heap.block b := by
  have hget : s.map.array[i]? = some (s.map.slot i) := by
    rw [slot_eq_getElem hi]
    exact List.getElem?_eq_getElem hi
  obtain ⟨heap, hmodify, hlen, hblock⟩ := Heap.exists_modify h.block hget f
  refine ⟨{ mem with heap }, ?_, ⟨h.array, ?_, h.capacity, h.size, hlen.trans h.next⟩, ?_⟩
  · rw [MapMemory.element, hmodify]
    rfl
  · exact (hblock s.array).trans (if_pos rfl)
  · intro b hb
    exact (hblock b).trans (if_neg hb)

/-- Memory follows the table. -/
theorem MapMemory.Shows.write (h : mem.Shows s) (hw : w.Local s) :
    ∃ mem', mem.write w = some mem' ∧ mem'.Shows (s.apply w) ∧
      ∀ b, b ≠ s.array → mem'.heap.block b = mem.heap.block b := by
  cases w with
  | value a i data =>
    obtain ⟨rfl, hi⟩ := hw
    exact h.element hi _
  | key a i key =>
    obtain ⟨rfl, hi⟩ := hw
    exact h.element hi _
  | used a i =>
    obtain ⟨rfl, hi⟩ := hw
    exact h.element hi _
  | size n => exact ⟨_, rfl, ⟨h.array, h.block, h.capacity, rfl, h.next⟩, fun _ _ => rfl⟩
  | calloc | array | capacity | free => exact hw.elim

theorem MapScript.apply_array (s : MapScript K V) (w : MapWrite K V) :
    (s.apply w).array = s.array ∧ (s.apply w).map.array.length = s.map.array.length := by
  cases w with
  | value | key | used => exact ⟨rfl, List.length_set⟩
  | size | calloc | array | capacity | free => exact ⟨rfl, rfl⟩

theorem MapWrite.Local.apply (h : w.Local s) (w' : MapWrite K V) : w.Local (s.apply w') := by
  obtain ⟨harray, hlen⟩ := s.apply_array w'
  cases w with
  | value | key | used => exact ⟨h.1.trans harray.symm, hlen.symm ▸ h.2⟩
  | size => trivial
  | calloc | array | capacity | free => exact h.elim

theorem MapWrite.Local.foldl {ws : List (MapWrite K V)} (h : w.Local s) :
    w.Local (ws.foldl MapScript.apply s) := by
  induction ws generalizing s with
  | nil => exact h
  | cons w' ws ih => exact ih (h.apply w')

theorem MapMemory.Shows.writes {ws : List (MapWrite K V)} (h : mem.Shows s)
    (hws : ∀ w ∈ ws, w.Local s) :
    ∃ mem', mem.writes ws = some mem' ∧ mem'.Shows (ws.foldl MapScript.apply s) ∧
      ∀ b, b ≠ s.array → mem'.heap.block b = mem.heap.block b := by
  induction ws generalizing mem s with
  | nil => exact ⟨mem, rfl, h, fun _ _ => rfl⟩
  | cons w ws ih =>
    obtain ⟨mem₁, hw, h₁, hrest⟩ := h.write (hws w List.mem_cons_self)
    obtain ⟨mem', hws', h', hrest'⟩ := ih h₁ fun w' hw' =>
      (hws w' (List.mem_cons_of_mem _ hw')).apply w
    refine ⟨mem', ?_, h', fun b hb => ?_⟩
    · rw [MapMemory.writes_cons, hw]
      exact hws'
    · rw [hrest' b ((s.apply_array w).1 ▸ hb), hrest b hb]

/-! ## The store -/

theorem storeWrites_local (key : K) (data : V) (hi : index < s.map.array.length) :
    ∀ w ∈ storeWrites s index key data, w.Local s := by
  intro w hw
  unfold storeWrites at hw
  split at hw
  · obtain rfl := List.mem_singleton.mp hw
    exact ⟨rfl, hi⟩
  · simp only [List.mem_cons, List.not_mem_nil, or_false] at hw
    rcases hw with rfl | rfl | rfl | rfl
    · exact ⟨rfl, hi⟩
    · exact ⟨rfl, hi⟩
    · exact ⟨rfl, hi⟩
    · trivial

theorem MapScript.slot_set (s : MapScript K V) (hi : i < s.map.array.length)
    (el : HashmapElement K V) : (s.set i el).map.slot i = el := by
  simp [MapScript.set, Hashmap.slot, hi]

omit [Inhabited K] [Inhabited V] in
theorem MapScript.set_set (s : MapScript K V) (i : Nat) (el el' : HashmapElement K V) :
    (s.set i el).set i el' = s.set i el' := by
  simp [MapScript.set]

/-- All the writes together store the entry. -/
theorem storeWrites_apply (data : V) (hindex : hashmapIndexof s.map key = some index)
    (hi : index < s.map.array.length) :
    ∃ map, hashmapStore s.map key data = some map ∧
      (storeWrites s index key data).foldl MapScript.apply s = { s with map } := by
  cases hused : (s.map.slot index).used with
  | true =>
    refine ⟨{ s.map with array := s.map.array.set index { s.map.slot index with value := data } },
      ?_, ?_⟩
    · simp [hashmapStore, hindex, hused]
    · simp only [storeWrites, hused, if_true, List.foldl_cons, List.foldl_nil, MapScript.apply,
        MapScript.set]
  | false =>
    refine ⟨{ s.map with
      array := s.map.array.set index { used := true, key, value := data }
      size := s.map.size + 1 }, ?_, ?_⟩
    · simp [hashmapStore, hindex, hused]
    · simp only [storeWrites, hused, Bool.false_eq_true, if_false, List.foldl_cons, List.foldl_nil,
        MapScript.apply, MapScript.slot_set s hi, MapScript.set_set]
      simp only [MapScript.set]

theorem store_fits {map map' : Hashmap K V} (hfits : map.Fits)
    (h : hashmapStore map key data = some map') : map'.Fits := by
  unfold hashmapStore at h
  obtain ⟨index, -, h⟩ := Option.bind_eq_some_iff.mp h
  dsimp only at h
  split at h
  · obtain rfl := Option.some.inj h
    exact ⟨hfits.1, List.length_set.trans hfits.2⟩
  · obtain rfl := Option.some.inj h
    exact ⟨hfits.1, List.length_set.trans hfits.2⟩

theorem storeScript_goes (hw : mem₀.writes s.writes = some mem) (h : mem.Shows s)
    (hfits : s.map.Fits) (hstore : storeScript s key data = some s') :
    ∃ mem', mem₀.writes s'.writes = some mem' ∧ mem.Goes s mem' s' := by
  obtain ⟨index, hindex, hstore⟩ := Option.bind_eq_some_iff.mp hstore
  obtain ⟨map, hmap, hstore⟩ := Option.bind_eq_some_iff.mp hstore
  obtain rfl := Option.some.inj hstore
  have hi : index < s.map.array.length := hfits.2.symm ▸ indexof_lt hfits.1 hindex
  obtain ⟨map', hmap', happly⟩ := storeWrites_apply data hindex hi
  obtain rfl : map' = map := Option.some.inj (hmap'.symm.trans hmap)
  obtain ⟨mem', hws, hshows, hrest⟩ := h.writes (storeWrites_local key data hi)
  rw [happly] at hshows
  refine ⟨mem', ?_, ⟨hshows.array, hshows.block, hshows.capacity, hshows.size, hshows.next⟩,
    store_fits hfits hmap, Nat.le_refl _, Or.inl rfl,
    fun b hb => (hrest b hb).trans (if_neg hb).symm⟩
  rw [MapMemory.writes_append, hw]
  exact hws

/-! ## The expansion -/

omit [Inhabited K] [Inhabited V] in
theorem MapMemory.Goes.refl (h : mem.Shows s) (hfits : s.map.Fits) : mem.Goes s mem s :=
  ⟨h, hfits, Nat.le_refl _, Or.inl rfl, fun _ hb => (if_neg hb).symm⟩

omit [Inhabited K] [Inhabited V] in
theorem MapMemory.Goes.trans (hs : mem.Shows s) (h : mem.Goes s mem₁ s₁)
    (h' : mem₁.Goes s₁ mem₂ s₂) : mem.Goes s mem₂ s₂ := by
  refine ⟨h'.shows, h'.fits, Nat.le_trans h.next h'.next, ?_, fun b hb => ?_⟩
  · have hnext := h.next
    rcases h.array with harray | hnew
    · rcases h'.array with harray' | hnew'
      · exact Or.inl (harray'.trans harray)
      · exact Or.inr (Nat.le_trans hnext hnew')
    · rcases h'.array with harray' | hnew'
      · exact Or.inr (harray' ▸ hnew)
      · exact Or.inr (Nat.le_trans hnext hnew')
  · rw [h'.rest b hb]
    by_cases hb₁ : b = s₁.array
    · -- The array in between: it was that of `s`, or was not there yet.
      rw [if_pos hb₁]
      split
      · rfl
      · rename_i hne
        rcases h.array with harray | hnew
        · exact absurd (hb₁.trans harray) hne
        · exact (Heap.block_eq_none (by rw [hs.next, hb₁]; exact hnew)).symm
    · rw [if_neg hb₁]
      exact h.rest b hb₁

/-- The new array is allocated and made that of the map. -/
theorem MapMemory.Shows.doubled (hw : mem₀.writes s.writes = some mem) (h : mem.Shows s)
    (hfits : s.map.Fits) :
    ∃ mem', mem₀.writes s.doubled.writes = some mem' ∧ mem'.Shows s.doubled ∧
      s.doubled.map.Fits ∧ ∀ b, b ≠ s.next → mem'.heap.block b = mem.heap.block b := by
  let grown : MapMemory K V :=
    { heap := (mem.heap.alloc (callocElements (2 * s.map.capacity))).1
      array := s.next
      capacity := 2 * s.map.capacity
      size := 0 }
  refine ⟨grown, ?_, ⟨rfl, ?_, rfl, rfl, ?_⟩, ⟨?_, ?_⟩, ?_⟩
  · show mem₀.writes (s.writes ++ _) = _
    rw [MapMemory.writes_append, hw]
    rfl
  · exact (Heap.block_alloc _ _).trans (if_pos h.next.symm)
  · show (mem.heap.blocks ++ [_]).length = s.next + 1
    rw [List.length_append, h.next]
    rfl
  · obtain ⟨b, hb, hc⟩ := hfits.1
    exact ⟨b + 1, by omega, by
      show 2 * s.map.capacity = _
      rw [hc, Nat.pow_succ, Nat.mul_comm]⟩
  · exact List.length_replicate
  · intro b hb
    exact (Heap.block_alloc _ b).trans (if_neg (by rw [h.next]; exact hb))

/-- What is shown for each `hashmap_put`, for the loop of `hashmap_expand`. -/
theorem reinsertScript_goes {put : MapScript K V → K → V → Option (MapScript K V)}
    (hput : ∀ {mem : MapMemory K V} {s s' : MapScript K V} {key data},
      mem₀.writes s.writes = some mem → mem.Shows s → s.map.Fits → put s key data = some s' →
      ∃ mem', mem₀.writes s'.writes = some mem' ∧ mem.Goes s mem' s')
    (l : List (HashmapElement K V)) (hw : mem₀.writes s.writes = some mem) (h : mem.Shows s)
    (hfits : s.map.Fits) (hl : l.foldlM (reinsertScript put) s = some s') :
    ∃ mem', mem₀.writes s'.writes = some mem' ∧ mem.Goes s mem' s' := by
  induction l generalizing s mem with
  | nil =>
    obtain rfl := Option.some.inj hl
    exact ⟨mem, hw, .refl h hfits⟩
  | cons el l ih =>
    rw [List.foldlM_cons] at hl
    obtain ⟨s₁, hs₁, hl⟩ := Option.bind_eq_some_iff.mp hl
    unfold reinsertScript at hs₁
    split at hs₁
    · obtain ⟨mem₁, hw₁, hgoes⟩ := hput hw h hfits hs₁
      obtain ⟨mem', hw', hgoes'⟩ := ih hw₁ hgoes.shows hgoes.fits hl
      exact ⟨mem', hw', hgoes.trans h hgoes'⟩
    · obtain rfl := Option.some.inj hs₁
      exact ih hw h hfits hl

theorem expandScript_goes {put : MapScript K V → K → V → Option (MapScript K V)}
    (hput : ∀ {mem : MapMemory K V} {s s' : MapScript K V} {key data},
      mem₀.writes s.writes = some mem → mem.Shows s → s.map.Fits → put s key data = some s' →
      ∃ mem', mem₀.writes s'.writes = some mem' ∧ mem.Goes s mem' s')
    (hw : mem₀.writes s.writes = some mem) (h : mem.Shows s) (hfits : s.map.Fits)
    (hexpand : expandScriptWith put s = some s') :
    ∃ mem', mem₀.writes s'.writes = some mem' ∧ mem.Goes s mem' s' := by
  obtain ⟨s₂, hloop, rfl⟩ := Option.map_eq_some_iff.mp hexpand
  obtain ⟨mem₁, hw₁, h₁, hfits₁, hold₁⟩ := h.doubled hw hfits
  obtain ⟨mem₂, hw₂, hgoes⟩ := reinsertScript_goes hput _ hw₁ h₁ hfits₁ hloop
  -- The old array is still there when it is freed, and it is not the new one.
  have hlt : s.array < s.next := h.next ▸ Heap.lt_of_block h.block
  have hnext : s.next + 1 ≤ s₂.next := hgoes.next
  have harray : s.next ≤ s₂.array := by
    rcases hgoes.array with heq | hge
    · exact heq ▸ Nat.le_refl s.next
    · exact Nat.le_of_succ_le hge
  have hold : mem₂.heap.block s.array = some s.map.array := by
    rw [hgoes.rest s.array (Nat.ne_of_lt (Nat.lt_of_lt_of_le hlt harray)),
      if_neg (show s.array ≠ s.doubled.array from Nat.ne_of_lt hlt), hold₁ _ (Nat.ne_of_lt hlt)]
    exact h.block
  obtain ⟨heap, hfree, hlen, hblock⟩ := Heap.exists_free hold
  refine ⟨{ mem₂ with heap }, ?_, ⟨hgoes.shows.array, ?_, hgoes.shows.capacity, hgoes.shows.size,
    hlen.trans hgoes.shows.next⟩, hgoes.fits, Nat.le_of_succ_le hnext, Or.inr harray,
    fun b hb => ?_⟩
  · rw [MapMemory.writes_append, hw₂]
    show (mem₂.write (.free s.array)).bind _ = _
    rw [MapMemory.write, hfree]
    rfl
  · have hne : s₂.array ≠ s.array := Nat.ne_of_gt (Nat.lt_of_lt_of_le hlt harray)
    exact (hblock _).trans ((if_neg hne).trans hgoes.shows.block)
  · rw [hblock b]
    split
    · rfl
    · rw [hgoes.rest b hb]
      split
      · rename_i hnew
        exact (Heap.block_eq_none (by rw [h.next, hnew]; exact Nat.le_refl s.next)).symm
      · rename_i hnew
        exact hold₁ b hnew

/-- **The writes of `hashmap_put`**: after them memory shows its result, in the old array or in a
new one. -/
theorem putScriptN_goes (depth : Nat) (hw : mem₀.writes s.writes = some mem) (h : mem.Shows s)
    (hfits : s.map.Fits) (hput : putScriptN depth s key data = some s') :
    ∃ mem', mem₀.writes s'.writes = some mem' ∧ mem.Goes s mem' s' := by
  induction depth generalizing s s' mem key data with
  | zero => cases hput
  | succ depth ih =>
    rw [putScriptN] at hput
    split at hput
    · obtain ⟨s₁, hs₁, hstore⟩ := Option.bind_eq_some_iff.mp hput
      obtain ⟨mem₁, hw₁, hgoes⟩ := expandScript_goes (fun hw h hfits hput => ih hw h hfits hput)
        hw h hfits hs₁
      obtain ⟨mem', hw', hgoes'⟩ := storeScript_goes hw₁ hgoes.shows hgoes.fits hstore
      exact ⟨mem', hw', hgoes.trans h hgoes'⟩
    · exact storeScript_goes hw h hfits hput

/-! ## How many they are -/

section Count

variable {put : MapScript K V → K → V → Option (MapScript K V)} {k : Nat}

omit [Inhabited K] [Inhabited V] in
theorem reinsertScript_length
    (hput : ∀ s key data s', put s key data = some s' → s'.writes.length ≤ s.writes.length + k)
    (l : List (HashmapElement K V)) {s s' : MapScript K V}
    (h : l.foldlM (reinsertScript put) s = some s') :
    s'.writes.length ≤ s.writes.length + k * l.length := by
  induction l generalizing s with
  | nil =>
    obtain rfl := Option.some.inj h
    exact Nat.le_add_right _ _
  | cons el l ih =>
    rw [List.foldlM_cons] at h
    obtain ⟨s₁, hs₁, hrest⟩ := Option.bind_eq_some_iff.mp h
    have hle := ih hrest
    have hfirst : s₁.writes.length ≤ s.writes.length + k := by
      unfold reinsertScript at hs₁
      split at hs₁
      · exact hput _ _ _ _ hs₁
      · obtain rfl := Option.some.inj hs₁
        exact Nat.le_add_right _ _
    rw [List.length_cons, Nat.mul_succ]
    omega

theorem storeScript_length {s s' : MapScript K V} {key : K} {data : V}
    (h : storeScript s key data = some s') : s'.writes.length ≤ s.writes.length + 4 := by
  obtain ⟨index, -, h⟩ := Option.bind_eq_some_iff.mp h
  obtain ⟨map, -, h⟩ := Option.bind_eq_some_iff.mp h
  obtain rfl := Option.some.inj h
  rw [List.length_append]
  refine Nat.add_le_add_left ?_ _
  unfold storeWrites
  split
  · exact Nat.le_add_left 1 3
  · exact Nat.le_refl 4

/-- A `hashmap_put` with expansions whose own puts do at most `k` writes. -/
theorem putScriptN_length_succ {depth : Nat}
    (hput : ∀ (s : MapScript K V) key data s', putScriptN depth s key data = some s' →
      s'.writes.length ≤ s.writes.length + k)
    {s s' : MapScript K V} {key : K} {data : V}
    (h : putScriptN (depth + 1) s key data = some s') :
    s'.writes.length ≤ s.writes.length + k * s.map.array.length + 9 := by
  rw [putScriptN] at h
  split at h
  · obtain ⟨s₁, hs₁, hstore⟩ := Option.bind_eq_some_iff.mp h
    obtain ⟨s₂, hs₂, rfl⟩ := Option.map_eq_some_iff.mp hs₁
    have hloop := reinsertScript_length hput _ hs₂
    have hlast := storeScript_length hstore
    simp only [MapScript.doubled, List.length_append, List.length_cons, List.length_nil]
      at hloop hlast
    omega
  · have hlast := storeScript_length (s := s) h
    omega

/-- A bound for the writes of a `hashmap_put`. -/
theorem putScriptN_length {s s' : MapScript K V} {key : K} {data : V}
    (h : putScriptN 2 s key data = some s') :
    s'.writes.length ≤ s.writes.length + 9 * s.map.array.length + 9 := by
  refine putScriptN_length_succ (fun s key data s' h => ?_) h
  have hinner := @putScriptN_length_succ K V _ _ 0 0 (by rintro _ _ _ _ ⟨⟩) s s' key data h
  omega

end Count

/-! ## Whole runs -/

variable {hash : K → UInt64} {equals : K → K → Bool}

omit [Inhabited K] [Inhabited V] in
theorem MapMemory.Shows.table (h : mem.Shows s) (hhash : s.map.hash = hash)
    (hequals : s.map.equals = equals) : mem.table hash equals = s.map := by
  subst hhash hequals
  rw [MapMemory.table, h.array, h.block, h.capacity, h.size]
  rfl

theorem Hashmap.Sound.fits {map : Hashmap K V} (h : map.Sound) : map.Fits := ⟨h.pow, h.length⟩

/-- `hashmap_put` of a sound table that is in memory. -/
theorem exists_putScript
    (hblock : mem.heap.block mem.array = some (mem.table hash equals).array)
    (hs : (mem.table hash equals).Sound) (key : K) (data : V) :
    ∃ script mem', putScriptN 2 (mem.script hash equals) key data = some script ∧
      mem.writes script.writes = some mem' ∧ mem.Goes (mem.script hash equals) mem' script ∧
      hashmapPut (mem.table hash equals) key data = some script.map ∧
      (mem.table hash equals).Updated script.map key data := by
  obtain ⟨map, hput, hupdated⟩ := hs.put key data
  have hmap := putScriptN_map 2 (mem.script hash equals) key data
  obtain ⟨script, hscript, rfl⟩ := Option.map_eq_some_iff.mp (hmap.trans hput)
  obtain ⟨mem', hwrites, hgoes⟩ :=
    putScriptN_goes 2 rfl ⟨rfl, hblock, rfl, rfl, rfl⟩ hs.fits hscript
  exact ⟨script, mem', hscript, hwrites, hgoes, hput, hupdated⟩

/-- The table of the map is in memory, and nothing else. -/
structure MapMemory.Alone (mem : MapMemory K V) (map : Hashmap K V) : Prop where
  table : mem.table map.hash map.equals = map
  block : ∀ b, mem.heap.block b = if b = mem.array then some map.array else none

theorem MapMemory.Alone.put {map : Hashmap K V} (h : mem.Alone map) (hs : map.Sound) (key : K)
    (data : V) : ∃ mem' map', mem.put map.hash map.equals key data = some mem' ∧
      hashmapPut map key data = some map' ∧ mem'.Alone map' ∧ map.Updated map' key data := by
  have hblock := (h.block mem.array).trans (if_pos rfl)
  have hput := @exists_putScript K V _ _ mem map.hash map.equals
    (hblock.trans (congrArg (some ∘ Hashmap.array) h.table.symm)) (h.table.symm ▸ hs) key data
  rw [h.table] at hput
  obtain ⟨script, mem', hscript, hwrites, hgoes, hmap, hupdated⟩ := hput
  refine ⟨mem', script.map, ?_, hmap, ⟨?_, fun b => ?_⟩, hupdated⟩
  · rw [MapMemory.put, hscript]
    exact hwrites
  · exact hgoes.shows.table rfl rfl
  · rw [hgoes.shows.array]
    split
    · rename_i hb
      rw [hb]
      exact hgoes.shows.block
    · rename_i hb
      rw [hgoes.rest b hb]
      split
      · rfl
      · rename_i hold
        exact (h.block b).trans (if_neg hold)

/-- **A run of `hashmap_put` in memory**, write by write in the order of the source: no write goes to
an array that was freed, or past the end of one; memory then shows the table of the run; and its
array is all that is allocated, so that no expansion leaks the old one. -/
theorem hashmap_puts_in_memory (hl : Lawful hash equals) {initialSize : Int} {map₀ : Hashmap K V}
    (h₀ : hashmapAlloc initialSize hash equals = some map₀) (puts : List (K × V)) :
    ∃ mem map, map₀.memory.putAll hash equals puts = some mem ∧
      puts.foldlM (fun map entry => hashmapPut map entry.1 entry.2) map₀ = some map ∧
      mem.Alone map := by
  obtain ⟨hs₀, hhash₀, hequals₀, -⟩ := hashmapAlloc_sound hl h₀
  have halone₀ : map₀.memory.Alone map₀ := by
    refine ⟨rfl, fun b => ?_⟩
    cases b with
    | zero => rfl
    | succ b => rfl
  have hrun : ∀ {mem : MapMemory K V} {map : Hashmap K V}, map.Sound → map.hash = hash →
      map.equals = equals → mem.Alone map →
      ∃ mem' map', mem.putAll hash equals puts = some mem' ∧
        puts.foldlM (fun map entry => hashmapPut map entry.1 entry.2) map = some map' ∧
        mem'.Alone map' := by
    induction puts with
    | nil => exact fun _ _ _ h => ⟨_, _, rfl, rfl, h⟩
    | cons entry puts ih =>
      intro mem map hs hhash hequals halone
      obtain ⟨mem₁, map₁, hmem₁, hmap₁, halone₁, hupdated⟩ := halone.put hs entry.1 entry.2
      rw [hhash, hequals] at hmem₁
      obtain ⟨mem', map', hmem', hmap', halone'⟩ := ih hupdated.sound
        (hupdated.hash.trans hhash) (hupdated.equals.trans hequals) halone₁
      refine ⟨mem', map', ?_, ?_, halone'⟩
      · rw [MapMemory.putAll, List.foldlM_cons, hmem₁]
        exact hmem'
      · rw [List.foldlM_cons, hmap₁]
        exact hmap'
  exact hrun hs₀ hhash₀ hequals₀ halone₀

end Shows

def thirteenEntries : List (Nat × Nat) := (List.range 13).map fun i => (i, 10 * i)

/-- The last of thirteen keys moves the table to a new array. -/
theorem hashmap_puts_in_memory_thirteen :
    ∃ map₀ : Hashmap Nat Nat, ∃ mem map,
      hashmapAlloc 3 (fun _ => 7) (fun a b => a == b) = some map₀ ∧
      map₀.memory.putAll (fun _ => 7) (fun a b => a == b) thirteenEntries = some mem ∧
      mem.array = 1 ∧ mem.heap.block 0 = none ∧ mem.Alone map := by
  have hview : (hashmapAlloc 3 (fun _ => 7) (fun a b => a == b)).bind
      (fun map₀ : Hashmap Nat Nat =>
        (map₀.memory.putAll (fun _ => 7) (fun a b => a == b) thirteenEntries).map
          MapMemory.array) = some 1 := by decide +kernel
  obtain ⟨map₀, h₀, hview⟩ := Option.bind_eq_some_iff.mp hview
  obtain ⟨mem, map, hmem, -, halone⟩ := hashmap_puts_in_memory lawful_nat_collide h₀ thirteenEntries
  rw [hmem] at hview
  have harray := Option.some.inj hview
  refine ⟨map₀, mem, map, h₀, hmem, harray, (halone.block 0).trans (if_neg ?_), halone⟩
  rw [harray]
  exact Nat.zero_ne_one

end TcpIp
