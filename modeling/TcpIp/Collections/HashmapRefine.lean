import Mathlib.Data.Finmap
import Mathlib.Tactic.Common
import TcpIp.Collections.HashmapAlloc

/-!
# The hash map refines a finite map

The finite map of a table is a Mathlib `Finmap` over the classes of equal keys (`KeyClass`).
`Hashmap.toFinmap` inserts the used slots in index order, the order in which `hashmap_expand`
re-inserts them, so a rebuilt table has the finite map of the old one (`expandWith_toFinmap`).

* `Sound.expandWith`, `Sound.put`: resizing keeps every entry, and `hashmap_put` updates one.
* `hashmapPutN_eq_put`: the recursion between `hashmap_put` and `hashmap_expand` is one level deep.
* `hashmapRun_refines`: a run of operations from `hashmap_alloc` computes the finite map of the
  same run.
-/

namespace TcpIp

open OpenAddressing

variable {K V : Type} {hash : K → UInt64} {equals : K → K → Bool}

/-- Keys up to `equals`. -/
def keySetoid (hl : Lawful hash equals) : Setoid K where
  r a b := equals a b = true
  iseqv := ⟨hl.refl, hl.symm, hl.trans⟩

/-- The classes of equal keys. -/
def KeyClass (hl : Lawful hash equals) : Type := Quotient (keySetoid hl)

def KeyClass.mk (hl : Lawful hash equals) (k : K) : KeyClass hl := Quotient.mk (keySetoid hl) k

instance (hl : Lawful hash equals) : DecidableEq (KeyClass hl) :=
  @Quotient.decidableEq K (keySetoid hl) fun a b => inferInstanceAs (Decidable (equals a b = true))

theorem KeyClass.mk_eq {hl : Lawful hash equals} {a b : K} :
    KeyClass.mk hl a = KeyClass.mk hl b ↔ equals a b = true :=
  Quotient.eq (r := keySetoid hl)

/-- Finite maps from key classes to values. -/
abbrev FiniteMap (hl : Lawful hash equals) (V : Type) := Finmap fun _ : KeyClass hl => V

namespace FiniteMap

variable {hl : Lawful hash equals}

theorem lookup_insert_mk (f : FiniteMap hl V) (key k : K) (data : V) :
    (f.insert (KeyClass.mk hl key) data).lookup (KeyClass.mk hl k) =
      if equals k key then some data else f.lookup (KeyClass.mk hl k) := by
  split
  · rename_i h
    rw [KeyClass.mk_eq.mpr h, Finmap.lookup_insert]
  · rename_i h
    exact Finmap.lookup_insert_of_ne f fun e => h (KeyClass.mk_eq.mp e)

theorem card_keys_insert {f : FiniteMap hl V} {a : KeyClass hl} (h : a ∉ f) (data : V) :
    (f.insert a data).keys.card = f.keys.card + 1 := by
  have hk : (f.insert a data).keys = insert a f.keys := by
    ext b
    rw [Finset.mem_insert, Finmap.mem_keys, Finmap.mem_keys, Finmap.mem_insert]
  rw [hk, Finset.card_insert_of_notMem (by rwa [Finmap.mem_keys])]

/-- The finite map with a slot's entry inserted, if the slot is used. -/
def insertElement (f : FiniteMap hl V) (el : HashmapElement K V) : FiniteMap hl V :=
  if el.used then f.insert (KeyClass.mk hl el.key) el.value else f

/-- Slots without an equal key do not change an entry. -/
theorem lookup_foldl_other {l : List (HashmapElement K V)} {k : K}
    (h : ∀ el ∈ l, el.used = true → equals k el.key = false) (f : FiniteMap hl V) :
    (l.foldl insertElement f).lookup (KeyClass.mk hl k) = f.lookup (KeyClass.mk hl k) := by
  induction l generalizing f with
  | nil => rfl
  | cons el l ih =>
    rw [List.foldl_cons, ih fun e he => h e (List.mem_cons_of_mem _ he)]
    unfold insertElement
    split
    · rename_i hu
      rw [lookup_insert_mk, h el List.mem_cons_self hu, if_neg (by simp)]
    · rfl

/-- The last used slot with an equal key decides an entry. -/
theorem lookup_foldl_last {l₁ l₂ : List (HashmapElement K V)} {el : HashmapElement K V} {k : K}
    (hu : el.used = true) (hk : equals k el.key = true)
    (h : ∀ e ∈ l₂, e.used = true → equals k e.key = false) (f : FiniteMap hl V) :
    ((l₁ ++ el :: l₂).foldl insertElement f).lookup (KeyClass.mk hl k) = some el.value := by
  rw [List.foldl_append, List.foldl_cons, lookup_foldl_other h, insertElement, if_pos hu,
    lookup_insert_mk, if_pos hk]

/-- Used slots with pairwise different keys are counted by the keys they add. -/
theorem card_keys_foldl {l : List (HashmapElement K V)}
    (hd : l.Pairwise fun a b => a.used = true → b.used = true → equals a.key b.key = false)
    (f : FiniteMap hl V) (hf : ∀ el ∈ l, el.used = true → KeyClass.mk hl el.key ∉ f) :
    (l.foldl insertElement f).keys.card = f.keys.card + l.countP (·.used) := by
  induction l generalizing f with
  | nil => simp
  | cons el l ih =>
    obtain ⟨hel, hd⟩ := List.pairwise_cons.mp hd
    rw [List.foldl_cons, List.countP_cons]
    cases hu : el.used with
    | false =>
      rw [insertElement, hu, if_neg (by simp), ih hd f fun e he => hf e (List.mem_cons_of_mem _ he)]
      simp
    | true =>
      have hnew := hf el List.mem_cons_self hu
      rw [insertElement, if_pos hu, ih hd _ ?_, card_keys_insert hnew]
      · simp only [if_true]; omega
      · intro e he hue hmem
        rcases Finmap.mem_insert.mp hmem with h | h
        · have := hel e he hu hue
          rw [hl.symm (KeyClass.mk_eq.mp h)] at this; cases this
        · exact hf e (List.mem_cons_of_mem _ he) hue h

/-- The used slots bound the keys they add. -/
theorem card_keys_foldl_le (l : List (HashmapElement K V)) (f : FiniteMap hl V) :
    (l.foldl insertElement f).keys.card ≤ f.keys.card + l.countP (·.used) := by
  induction l generalizing f with
  | nil => simp
  | cons el l ih =>
    have hel : (insertElement f el).keys.card ≤ f.keys.card + if el.used then 1 else 0 := by
      unfold insertElement
      split
      · by_cases hmem : KeyClass.mk hl el.key ∈ f
        · have hk : (f.insert (KeyClass.mk hl el.key) el.value).keys = f.keys := by
            ext b
            rw [Finmap.mem_keys, Finmap.mem_keys, Finmap.mem_insert]
            exact ⟨fun h => h.elim (fun h => h ▸ hmem) id, Or.inr⟩
          rw [hk]
          omega
        · exact Nat.le_of_eq (card_keys_insert hmem _)
      · exact Nat.le_refl _
    rw [List.foldl_cons, List.countP_cons]
    have := ih (insertElement f el)
    omega

end FiniteMap

/-- The finite map of a table. -/
def Hashmap.toFinmap (map : Hashmap K V) (hl : Lawful hash equals) : FiniteMap hl V :=
  map.array.foldl FiniteMap.insertElement ∅

variable [Inhabited K] [Inhabited V] (hl : Lawful hash equals)

/-! ## The finite map of a sound table -/

namespace Hashmap.Sound

variable {map : Hashmap K V}

theorem pairwise_ne (hs : map.Sound) : map.array.Pairwise fun a b =>
    a.used = true → b.used = true → map.equals a.key b.key = false := by
  rw [List.pairwise_iff_getElem]
  intro i j hi hj hij hui huj
  rw [← slot_eq_getElem hi] at hui ⊢
  rw [← slot_eq_getElem hj] at huj ⊢
  cases he : map.equals (map.slot i).key (map.slot j).key with
  | false => rfl
  | true =>
    have := hs.chained.inj (by rwa [← hs.length]) (by rwa [← hs.length])
      (occ_some.mpr ⟨hui, rfl⟩) (occ_some.mpr ⟨huj, rfl⟩) he
    omega

theorem lookup_toFinmap (hs : map.Sound) (he : map.equals = equals) (k : K) :
    (map.toFinmap hl).lookup (KeyClass.mk hl k) = map.lookup k := by
  subst he
  unfold Hashmap.toFinmap
  cases hk : map.lookup k with
  | some v =>
    obtain ⟨i, hi, hu, he, rfl⟩ := hs.exists_of_lookup hk
    have hlen : i < map.array.length := by rwa [hs.length]
    have hsplit := array_split hlen
    have hpair := hs.pairwise_ne
    rw [hsplit, List.pairwise_append, List.pairwise_cons] at hpair
    rw [hsplit]
    refine FiniteMap.lookup_foldl_last hu he (fun e hmem hue => ?_) ∅
    -- A later slot with an equal key would equal the key of slot `i`.
    cases hek : map.equals k e.key with
    | false => rfl
    | true =>
      have := hpair.2.1.1 e hmem hu hue
      rw [hs.lawful.trans (hs.lawful.symm he) hek] at this; cases this
  | none =>
    rw [FiniteMap.lookup_foldl_other, Finmap.lookup_empty]
    intro el hel hu
    obtain ⟨i, hi, rfl⟩ := List.mem_iff_getElem.mp hel
    rw [← slot_eq_getElem hi] at hu ⊢
    cases he : map.equals k (map.slot i).key with
    | false => rfl
    | true => rw [hs.lookup_of_used (by rwa [← hs.length]) hu he] at hk; cases hk

theorem size_toFinmap (hs : map.Sound) (he : map.equals = equals) :
    map.size = (map.toFinmap hl).keys.card := by
  subst he
  rw [Hashmap.toFinmap, FiniteMap.card_keys_foldl hs.pairwise_ne ∅
    (fun _ _ _ => Finmap.notMem_empty), hs.size_eq]
  simp [Hashmap.usedCount]

end Hashmap.Sound

/-- Sound tables with the same lookups have the same finite map. -/
theorem toFinmap_eq_of_lookup {map : Hashmap K V} {f : FiniteMap hl V} (hs : map.Sound)
    (he : map.equals = equals) (h : ∀ k, map.lookup k = f.lookup (KeyClass.mk hl k)) :
    map.toFinmap hl = f := by
  refine Finmap.ext_lookup fun a => ?_
  obtain ⟨k, rfl⟩ := Quotient.exists_rep a
  exact (hs.lookup_toFinmap hl he k).trans (h k)

/-- Storing an entry inserts it into the finite map. -/
theorem Hashmap.Updated.toFinmap {map map' : Hashmap K V} {key : K} {data : V} (hs : map.Sound)
    (he : map.equals = equals) (hu : map.Updated map' key data) :
    map'.toFinmap hl = (map.toFinmap hl).insert (KeyClass.mk hl key) data := by
  refine toFinmap_eq_of_lookup hl hu.sound (hu.equals.trans he) fun k => ?_
  rw [hu.lookup, FiniteMap.lookup_insert_mk, hs.lookup_toFinmap hl he, he]

/-! ## Resizing -/

/-- A `put` that does not resize: what the loop of `hashmap_expand` relies on. -/
def StoresAtLowLoad (put : Hashmap K V → K → V → Option (Hashmap K V)) : Prop :=
  ∀ map key data, hashmapLoadFactor map ≤ 70 → put map key data = hashmapStore map key data

theorem putN_storesAtLowLoad (depth : Nat) :
    StoresAtLowLoad (hashmapPutN (K := K) (V := V) (depth + 1)) := by
  intro map key data h
  unfold hashmapPutN
  rw [if_neg (by omega)]
  rfl

omit [Inhabited K] [Inhabited V] in
/-- `size * 100 / capacity` where `size` counts the used slots. -/
theorem loadFactor_eq {map : Hashmap K V} (hsize : map.size = map.usedCount) :
    hashmapLoadFactor map = ((map.usedCount * 100 / map.capacity : Nat) : Int) := by
  unfold hashmapLoadFactor
  rw [hsize]
  norm_cast

omit [Inhabited K] [Inhabited V] in
/-- At most 70% of at least 16 slots are used, so one more key fits. -/
theorem room_of_loadFactor {map : Hashmap K V} (hp : ∃ b, 4 ≤ b ∧ map.capacity = 2 ^ b)
    (hsize : map.size = map.usedCount) (hload : ¬ hashmapLoadFactor map > 70) :
    map.usedCount + 1 < map.capacity := by
  have hcap := capacity_ge hp
  rw [loadFactor_eq hsize] at hload
  have h70 : map.usedCount * 100 / map.capacity < 71 := by omega
  have := (Nat.div_lt_iff_lt_mul (by omega)).mp h70
  omega

omit [Inhabited K] [Inhabited V] in
/-- A table that stays half empty with one more key is not resized for it. -/
theorem loadFactor_le_of_half {map : Hashmap K V} (hsize : map.size = map.usedCount)
    (hroom : 2 * (map.usedCount + 1) ≤ map.capacity) : hashmapLoadFactor map ≤ 70 := by
  rw [loadFactor_eq hsize]
  have : map.usedCount * 100 / map.capacity ≤ 50 := by
    apply Nat.div_le_of_le_mul
    omega
  omega

/-- A table of zeroed slots is sound and empty. -/
theorem calloc_sound {c : Nat} (hp : ∃ b, 4 ≤ b ∧ c = 2 ^ b) (hl : Lawful hash equals) :
    Hashmap.Sound (V := V) ⟨callocElements c, c, 0, hash, equals⟩ ∧
      Hashmap.usedCount (V := V) ⟨callocElements c, c, 0, hash, equals⟩ = 0 ∧
      ∀ k, Hashmap.lookup (V := V) ⟨callocElements c, c, 0, hash, equals⟩ k = none := by
  have hslot : ∀ i, (Hashmap.slot (V := V) ⟨callocElements c, c, 0, hash, equals⟩ i).used
      = false := fun i => by
    simp only [Hashmap.slot, callocElements, List.getD_eq_getElem?_getD, List.getElem?_replicate]
    split <;> rfl
  have hused : Hashmap.usedCount (V := V) ⟨callocElements c, c, 0, hash, equals⟩ = 0 := by
    simp [Hashmap.usedCount, callocElements, List.countP_replicate]
  have hs : Hashmap.Sound (V := V) ⟨callocElements c, c, 0, hash, equals⟩ :=
    { pow := hp
      length := by simp [callocElements]
      lawful := hl
      chained := Chained.empty fun i _ => occ_none.mpr (hslot i)
      size_eq := by rw [hused]; rfl
      room := by rw [hused]; exact Nat.lt_of_lt_of_le (by decide) (capacity_ge hp) }
  exact ⟨hs, hused, fun k => hs.lookup_none fun j _ hu => by rw [hslot] at hu; cases hu⟩

/-- The empty table `hashmap_expand` starts from. -/
theorem doubled_sound {map : Hashmap K V} (hp : ∃ b, 4 ≤ b ∧ map.capacity = 2 ^ b)
    (hl : Lawful map.hash map.equals) : map.doubled.Sound ∧ map.doubled.usedCount = 0 := by
  have hp' : ∃ b, 4 ≤ b ∧ 2 * map.capacity = 2 ^ b := by
    obtain ⟨b, hb, hc⟩ := hp
    exact ⟨b + 1, by omega, by rw [hc, Nat.pow_succ, Nat.mul_comm]⟩
  exact ⟨(calloc_sound hp' hl).1, (calloc_sound hp' hl).2.1⟩

theorem doubled_toFinmap (map : Hashmap K V) : map.doubled.toFinmap hl = ∅ := by
  have : ∀ n, (callocElements n : List (HashmapElement K V)).foldl
      FiniteMap.insertElement (∅ : FiniteMap hl V) = ∅ := fun n => by
    induction n with
    | zero => rfl
    | succ n ih => simpa [callocElements, List.replicate_succ, FiniteMap.insertElement] using ih
  exact this _

/-- The loop of `hashmap_expand` over the slots `l`: it never resizes, since the load stays at or
below one half, and it inserts the used slots in order. -/
theorem reinsert_loop (l : List (HashmapElement K V)) {map : Hashmap K V}
    (hs : map.Sound) (hh : map.hash = hash) (he : map.equals = equals)
    (hroom : 2 * (map.usedCount + l.length) ≤ map.capacity) :
    ∃ map', (∀ put, StoresAtLowLoad put → l.foldlM (hashmapReinsert put) map = some map') ∧
      map'.Sound ∧ map'.hash = hash ∧ map'.equals = equals ∧ map'.capacity = map.capacity ∧
      map'.toFinmap hl = l.foldl FiniteMap.insertElement (map.toFinmap hl) := by
  induction l generalizing map with
  | nil => exact ⟨map, fun _ _ => rfl, hs, hh, he, rfl, rfl⟩
  | cons el l ih =>
    rw [List.length_cons] at hroom
    have hcap := capacity_ge hs.pow
    simp only [List.foldlM_cons, hashmapReinsert, List.foldl_cons]
    cases hu : el.used with
    | false =>
      obtain ⟨map', hrun, hrest⟩ := ih hs hh he (by omega)
      exact ⟨map', fun put hput => by simpa using hrun put hput,
        by simpa [FiniteMap.insertElement, hu] using hrest⟩
    | true =>
      have hload := loadFactor_le_of_half hs.size_eq (by omega)
      obtain ⟨map₁, hstore, hcap₁, hupd⟩ := hs.store el.key el.value (by omega)
      have hused : map₁.usedCount ≤ map.usedCount + 1 := by
        have := hupd.size
        rw [hupd.sound.size_eq, hs.size_eq] at this
        split at this <;> omega
      obtain ⟨map', hrun, hs', hh', he', hcap', hfin⟩ :=
        ih hupd.sound (hupd.hash.trans hh) (hupd.equals.trans he) (by rw [hcap₁]; omega)
      refine ⟨map', fun put hput => ?_, hs', hh', he', hcap'.trans hcap₁, ?_⟩
      · rw [if_pos rfl, hput map el.key el.value hload, hstore]
        exact hrun put hput
      · rw [hfin, hupd.toFinmap hl hs he, FiniteMap.insertElement, if_pos hu]

/-- `hashmap_expand` of any table of power-of-two capacity: it ends, doubles the capacity, and the
new table is sound and holds the entries of the old slots, later slots winning. -/
theorem expandWith_toFinmap {map : Hashmap K V} (hp : ∃ b, 4 ≤ b ∧ map.capacity = 2 ^ b)
    (hlen : map.array.length = map.capacity) (hh : map.hash = hash) (he : map.equals = equals) :
    ∃ map', (∀ put, StoresAtLowLoad put → hashmapExpandWith put map = some map') ∧ map'.Sound ∧
      map'.hash = hash ∧ map'.equals = equals ∧ map'.capacity = 2 * map.capacity ∧
      map'.toFinmap hl = map.toFinmap hl := by
  obtain ⟨hs₀, hused⟩ := doubled_sound hp (by rw [hh, he]; exact hl)
  obtain ⟨map', hrun, hs', hh', he', hcap', hfin⟩ :=
    reinsert_loop hl map.array hs₀ hh he (by
      rw [hused, hlen, Nat.zero_add]; exact Nat.le_refl _)
  refine ⟨map', hrun, hs', hh', he', hcap', ?_⟩
  rw [hfin, doubled_toFinmap hl]
  rfl

/-- Two `put`s that agree at low load give the same `hashmap_expand`. -/
theorem expandWith_congr {map : Hashmap K V} (hp : ∃ b, 4 ≤ b ∧ map.capacity = 2 ^ b)
    (hlen : map.array.length = map.capacity) (hl : Lawful map.hash map.equals)
    {put put' : Hashmap K V → K → V → Option (Hashmap K V)} (hput : StoresAtLowLoad put)
    (hput' : StoresAtLowLoad put') : hashmapExpandWith put map = hashmapExpandWith put' map := by
  obtain ⟨map', hrun, -⟩ := expandWith_toFinmap hl hp hlen rfl rfl
  rw [hrun put hput, hrun put' hput']

/-- **The recursion between `hashmap_put` and `hashmap_expand` is one level deep**: more nested
activations than two change nothing. -/
theorem hashmapPutN_eq_put {map : Hashmap K V} (hp : ∃ b, 4 ≤ b ∧ map.capacity = 2 ^ b)
    (hlen : map.array.length = map.capacity) (hl : Lawful map.hash map.equals) (depth : Nat)
    (key : K) (data : V) : hashmapPutN (depth + 2) map key data = hashmapPut map key data := by
  rw [hashmapPut, hashmapPutN, hashmapPutN,
    expandWith_congr hp hlen hl (putN_storesAtLowLoad depth) (putN_storesAtLowLoad 0)]

namespace Hashmap.Sound

variable {map : Hashmap K V}

/-- Resizing a sound table keeps every entry. -/
theorem expandWith (hs : map.Sound) :
    ∃ map', (∀ put, StoresAtLowLoad put → hashmapExpandWith put map = some map') ∧ map'.Sound ∧
      map'.hash = map.hash ∧ map'.equals = map.equals ∧ map'.capacity = 2 * map.capacity ∧
      map'.size = map.size ∧ ∀ k, map'.lookup k = map.lookup k := by
  obtain ⟨map', hrun, hs', hh', he', hcap', hfin⟩ :=
    expandWith_toFinmap hs.lawful hs.pow hs.length rfl rfl
  refine ⟨map', hrun, hs', hh', he', hcap', ?_, fun k => ?_⟩
  · rw [hs'.size_toFinmap hs.lawful he', hs.size_toFinmap hs.lawful rfl, hfin]
  · rw [← hs'.lookup_toFinmap hs.lawful he', ← hs.lookup_toFinmap hs.lawful rfl,
      hfin]

/-- **`hashmap_put`** returns, and stores `data` for `key`. -/
theorem put (hs : map.Sound) (key : K) (data : V) :
    ∃ map', hashmapPut map key data = some map' ∧ map.Updated map' key data := by
  have hcap := capacity_ge hs.pow
  by_cases hload : hashmapLoadFactor map > 70
  · obtain ⟨map₁, hrun, hs₁, hh₁, he₁, hcap₁, hsize₁, hlook₁⟩ := hs.expandWith
    have hused : map₁.usedCount = map.usedCount := by
      have := hsize₁
      rw [hs₁.size_eq, hs.size_eq] at this
      omega
    have hroom := hs.room
    obtain ⟨map', hstore, hcap', hupd⟩ := hs₁.store key data (by omega)
    refine ⟨map', ?_, hupd.sound, hupd.hash.trans hh₁, hupd.equals.trans he₁, by omega, ?_, ?_⟩
    · unfold hashmapPut
      rw [hashmapPutN, if_pos hload, hrun _ (putN_storesAtLowLoad 0)]
      exact hstore
    · intro k
      rw [hupd.lookup, he₁, hlook₁]
    · rw [hupd.size, hsize₁, hlook₁]
  · obtain ⟨map', hstore, -, hupd⟩ :=
      hs.store key data (room_of_loadFactor hs.pow hs.size_eq hload)
    refine ⟨map', ?_, hupd⟩
    unfold hashmapPut
    rw [putN_storesAtLowLoad 1 map key data (by omega), hstore]

/-- **`hashmap_expand`** returns, doubles the capacity and keeps every entry. -/
theorem expand (hs : map.Sound) :
    ∃ map', hashmapExpand map = some map' ∧ map'.Sound ∧ map'.hash = map.hash ∧
      map'.equals = map.equals ∧ map'.capacity = 2 * map.capacity ∧ map'.size = map.size ∧
      ∀ k, map'.lookup k = map.lookup k := by
  obtain ⟨map', hrun, h⟩ := hs.expandWith
  exact ⟨map', hrun _ (putN_storesAtLowLoad 1), h⟩

/-- **`hashmap_clear`** empties the table. -/
theorem clear (hs : map.Sound) :
    (hashmapClear map).Sound ∧ ∀ k, (hashmapClear map).lookup k = none := by
  have hslot : ∀ i, ((hashmapClear map).slot i).used = false := fun i => by
    simp only [Hashmap.slot, hashmapClear, List.getD_eq_getElem?_getD, List.getElem?_map]
    cases map.array[i]? <;> rfl
  have hused : (hashmapClear map).usedCount = 0 := by
    simp [Hashmap.usedCount, hashmapClear, List.countP_eq_zero]
  have hs' : (hashmapClear map).Sound :=
    { pow := hs.pow
      length := by simpa [hashmapClear] using hs.length
      lawful := hs.lawful
      chained := Chained.empty fun i _ => occ_none.mpr (hslot i)
      size_eq := by rw [hused]; rfl
      room := by rw [hused]; exact hs.capacity_pos }
  exact ⟨hs', fun k => hs'.lookup_none fun j _ hu => by rw [hslot] at hu; cases hu⟩

end Hashmap.Sound

/-! ## Allocation -/

/-- **`hashmap_alloc`** returns an empty sound table. -/
theorem hashmapAlloc_sound {initialSize : Int} {map : Hashmap K V} (hl : Lawful hash equals)
    (h : hashmapAlloc initialSize hash equals = some map) :
    map.Sound ∧ map.hash = hash ∧ map.equals = equals ∧ ∀ k, map.lookup k = none := by
  cases hloop : highestBitLoop initialSize 64 (2 ^ 0) with
  | none =>
    rw [Int.pow_zero] at hloop
    simp [hashmapAlloc, highestBit, hloop] at h
  | some r =>
    obtain ⟨k, rfl, -⟩ := highestBitLoop_isLeast hloop
    rw [Int.pow_zero] at hloop
    rw [hashmapAlloc_eq hloop, Option.some.injEq] at h
    subst h
    obtain ⟨hs, -, hlook⟩ := calloc_sound (V := V) ⟨max k 4, Nat.le_max_right k 4, rfl⟩ hl
    exact ⟨hs, rfl, rfl, hlook⟩

/-! ## Runs -/

/-- The operations that change a map without removing a key. -/
inductive HashmapOp (K V : Type) where
  | put (key : K) (data : V)
  | clear
  | expand

namespace HashmapOp

def run : HashmapOp K V → Hashmap K V → Option (Hashmap K V)
  | put key data, map => hashmapPut map key data
  | clear, map => some (hashmapClear map)
  | expand, map => hashmapExpand map

/-- The same operation on a finite map. -/
def spec (hl : Lawful hash equals) : HashmapOp K V → FiniteMap hl V → FiniteMap hl V
  | put key data, f => f.insert (KeyClass.mk hl key) data
  | clear, _ => ∅
  | expand, f => f

end HashmapOp

def hashmapRun (ops : List (HashmapOp K V)) (map : Hashmap K V) : Option (Hashmap K V) :=
  ops.foldlM (fun map op => op.run map) map

/-- The finite map after `ops`: the last value put for each key since the last clear. -/
def specRun (hl : Lawful hash equals) (ops : List (HashmapOp K V)) (f : FiniteMap hl V) :
    FiniteMap hl V :=
  ops.foldl (fun f op => op.spec hl f) f

/-- One operation of a run. -/
theorem HashmapOp.run_refines (op : HashmapOp K V) {map : Hashmap K V} (hs : map.Sound)
    (hh : map.hash = hash) (he : map.equals = equals) :
    ∃ map', op.run map = some map' ∧ map'.Sound ∧ map'.hash = hash ∧ map'.equals = equals ∧
      map.capacity ≤ map'.capacity ∧ map'.toFinmap hl = op.spec hl (map.toFinmap hl) := by
  cases op with
  | put key data =>
    obtain ⟨map', hrun, hupd⟩ := hs.put key data
    exact ⟨map', hrun, hupd.sound, hupd.hash.trans hh, hupd.equals.trans he, hupd.capacity,
      hupd.toFinmap hl hs he⟩
  | clear =>
    obtain ⟨hs', hlook⟩ := hs.clear
    exact ⟨_, rfl, hs', hh, he, Nat.le_refl _,
      toFinmap_eq_of_lookup hl hs' he fun k => by rw [hlook]; rfl⟩
  | expand =>
    obtain ⟨map', hrun, hs', hh', he', hcap, -, hlook⟩ := hs.expand
    refine ⟨map', hrun, hs', hh'.trans hh, he'.trans he, by omega, ?_⟩
    refine toFinmap_eq_of_lookup hl hs' (he'.trans he) fun k => ?_
    rw [hlook]
    exact (hs.lookup_toFinmap hl he k).symm

/-- A run keeps the table sound and computes the finite map of the same run. -/
theorem hashmapRun_refines (ops : List (HashmapOp K V)) {map : Hashmap K V} (hs : map.Sound)
    (hh : map.hash = hash) (he : map.equals = equals) :
    ∃ map', hashmapRun ops map = some map' ∧ map'.Sound ∧ map'.hash = hash ∧
      map'.equals = equals ∧ map'.toFinmap hl = specRun hl ops (map.toFinmap hl) := by
  induction ops generalizing map with
  | nil => exact ⟨map, rfl, hs, hh, he, rfl⟩
  | cons op ops ih =>
    obtain ⟨map₁, hrun₁, hs₁, hh₁, he₁, -, hfin₁⟩ := op.run_refines hl hs hh he
    obtain ⟨map', hrun, hs', hh', he', hfin⟩ := ih hs₁ hh₁ he₁
    refine ⟨map', ?_, hs', hh', he', ?_⟩
    · unfold hashmapRun
      rw [List.foldlM_cons, hrun₁]
      exact hrun
    · rw [hfin, hfin₁]
      rfl

/-- **The hash map is a finite map.** After any run of puts, clears and expansions from
`hashmap_alloc`, every lookup answers from the finite map of the run, `size` counts its keys, the
capacity is a power of two that no operation shrinks, and an unused slot ends every probe. -/
theorem hashmap_run_finite_map (hl : Lawful hash equals) (initialSize : Int) :
    (initialSize ≤ 2 ^ 62 →
      (hashmapAlloc initialSize hash equals : Option (Hashmap K V)).isSome) ∧
    ∀ map₀ : Hashmap K V, hashmapAlloc initialSize hash equals = some map₀ →
    ∀ ops : List (HashmapOp K V), ∃ map, hashmapRun ops map₀ = some map ∧
      (∀ key, hashmapContainsKey map key =
          some ((specRun hl ops ∅).lookup (KeyClass.mk hl key)).isSome ∧
        hashmapGet map key =
          some (((specRun hl ops ∅).lookup (KeyClass.mk hl key)).getD default) ∧
        (∀ dflt, hashmapGetOrDefault map key dflt =
          some (((specRun hl ops ∅).lookup (KeyClass.mk hl key)).getD dflt)) ∧
        ∀ dflt, hashmapLgetOrDefault map key dflt =
          some (((specRun hl ops ∅).lookup (KeyClass.mk hl key)).getD (dflt ()))) ∧
      hashmapSize map = (specRun hl ops ∅).keys.card ∧
      (∃ b, hashmapCapacity map = 2 ^ b) ∧
      (∀ op : HashmapOp K V, ∃ map', op.run map = some map' ∧
        hashmapCapacity map ≤ hashmapCapacity map') ∧
      (∃ i, i < hashmapCapacity map ∧ (map.slot i).used = false) ∧
      ∀ key, ∃ i, hashmapIndexof map key = some i ∧ i < hashmapCapacity map := by
  refine ⟨fun h => hashmapAlloc_isSome h hash equals, fun map₀ h₀ ops => ?_⟩
  obtain ⟨hs₀, hh₀, he₀, hlook₀⟩ := hashmapAlloc_sound hl h₀
  have hempty : map₀.toFinmap hl = ∅ :=
    toFinmap_eq_of_lookup hl hs₀ he₀ fun k => by rw [hlook₀]; rfl
  obtain ⟨map, hrun, hs, hh, he, hfin⟩ := hashmapRun_refines hl ops hs₀ hh₀ he₀
  rw [hempty] at hfin
  have hlook : ∀ key, (specRun hl ops ∅).lookup (KeyClass.mk hl key) = map.lookup key :=
    fun key => by rw [← hfin, hs.lookup_toFinmap hl he]
  refine ⟨map, hrun, fun key => ?_, ?_, ?_, fun op => ?_, hs.exists_unused, fun key => ?_⟩
  · rw [hlook]
    exact ⟨hs.containsKey key, hs.get key, hs.getOrDefault key, hs.lgetOrDefault key⟩
  · unfold hashmapSize
    rw [hs.size_toFinmap hl he, hfin]
  · obtain ⟨b, -, hb⟩ := hs.pow
    exact ⟨b, hb⟩
  · obtain ⟨map', hop, -, -, -, hcap, -⟩ := op.run_refines hl hs hh he
    exact ⟨map', hop, hcap⟩
  · obtain ⟨i, hi, hix, -⟩ := hs.indexof key
    exact ⟨i, hix, hi⟩

/-- A lawful hash and comparison: natural numbers, all in one probe chain. -/
theorem lawful_nat_collide : Lawful (fun _ : Nat => (7 : UInt64)) (fun a b : Nat => a == b) where
  refl := by simp
  symm := by simp
  trans := by simp
  home_eq := by simp

/-- Two colliding keys, one of them put twice and an expansion in between. -/
theorem hashmap_run_finite_map_collide :
    ∃ map₀ map : Hashmap Nat Nat,
      hashmapAlloc 3 (fun _ => 7) (fun a b => a == b) = some map₀ ∧
      hashmapRun [.put 1 10, .put 2 20, .expand, .put 1 30] map₀ = some map ∧
      hashmapGet map 1 = some 30 ∧ hashmapGet map 2 = some 20 ∧ hashmapGet map 3 = some 0 ∧
      hashmapSize map = 2 := by
  obtain ⟨map, hrun, hget, hsize, -⟩ :=
    (hashmap_run_finite_map (V := Nat) lawful_nat_collide 3).2 _ rfl
      [.put 1 10, .put 2 20, .expand, .put 1 30]
  refine ⟨_, map, rfl, hrun, ?_, ?_, ?_, ?_⟩
  · rw [(hget 1).2.1]; rfl
  · rw [(hget 2).2.1]; rfl
  · rw [(hget 3).2.1]; rfl
  · rw [hsize]; rfl

end TcpIp
