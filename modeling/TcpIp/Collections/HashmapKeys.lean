import TcpIp.Collections.HashmapRefine

/-!
# The key objects in a table

`hashmap_put` stores the pointer it is given only where no equal key is stored; else the old pointer
stays and the value alone is replaced. So the pointers in the used slots are those of the first
`put` of each key, also after the table has grown.

* `Hashmap.usedKeys`: the pointers in the used slots, slot by slot.
* `hashmapPutSlot`: the slot that a `put` is about to write (`hashmapPut_slot`). It is used exactly
  when the `put` takes its update branch.
* `Sound.put_usedKeys`, `Sound.putSlot_used`: what a `put` does to both.
-/

namespace TcpIp

open OpenAddressing

variable {K V : Type} [Inhabited K] [Inhabited V]

/-- The key pointers of the used slots. -/
def Hashmap.usedKeys (map : Hashmap K V) : List K := (map.array.filter (·.used)).map (·.key)

/-- The table that `hashmap_put` probes: the one it was called with, or that one expanded. -/
def hashmapPutTable (map : Hashmap K V) : Option (Hashmap K V) :=
  if hashmapLoadFactor map > 70 then hashmapExpandWith (hashmapPutN 1) map else some map

/-- `el` in `hashmap_put`, before it is written. -/
def hashmapPutSlot (map : Hashmap K V) (key : K) : Option (HashmapElement K V) := do
  let map ← hashmapPutTable map
  let index ← hashmapIndexof map key
  return map.slot index

theorem hashmapPut_eq (map : Hashmap K V) (key : K) (data : V) :
    hashmapPut map key data =
      (hashmapPutTable map).bind fun map => hashmapStore map key data := by
  rw [hashmapPut, hashmapPutN, hashmapPutTable]
  split <;> rfl

/-- A `put` writes the slot `hashmapPutSlot`, and no other slot of the table that it probes. -/
theorem hashmapPut_slot {map map' : Hashmap K V} {key : K} {data : V}
    (hrun : hashmapPut map key data = some map') :
    ∃ table i, hashmapPutTable map = some table ∧
      hashmapPutSlot map key = some (table.slot i) ∧
      map'.array = table.array.set i
        (if (table.slot i).used then { table.slot i with value := data } else ⟨true, key, data⟩) := by
  rw [hashmapPut_eq] at hrun
  obtain ⟨table, htable, hstore⟩ := Option.bind_eq_some_iff.mp hrun
  obtain ⟨i, hix, hstore⟩ := Option.bind_eq_some_iff.mp hstore
  refine ⟨table, i, htable, by simp [hashmapPutSlot, htable, hix], ?_⟩
  cases hu : (table.slot i).used with
  | true =>
    obtain rfl : { table with array := table.array.set i { table.slot i with value := data } } =
        map' := by simpa [hu] using hstore
    rfl
  | false =>
    obtain rfl : { table with
        array := table.array.set i ⟨true, key, data⟩, size := table.size + 1 } = map' := by
      simpa [hu] using hstore
    rfl

omit [Inhabited K] [Inhabited V] in
theorem usedKeys_length (map : Hashmap K V) : map.usedKeys.length = map.usedCount := by
  rw [Hashmap.usedKeys, List.length_map, Hashmap.usedCount, List.countP_eq_length_filter]

/-- The key pointers around slot `i`. -/
theorem usedKeys_split {map : Hashmap K V} {i : Nat} (h : i < map.array.length) :
    map.usedKeys = ((map.array.take i).filter (·.used)).map (·.key) ++
      (([map.slot i].filter (·.used)).map (·.key) ++
        ((map.array.drop (i + 1)).filter (·.used)).map (·.key)) := by
  rw [← List.map_append, ← List.map_append, ← List.filter_append, ← List.filter_append,
    List.singleton_append, ← array_split h]
  rfl

/-- An unused slot is taken. -/
theorem usedKeys_set_new {map : Hashmap K V} {i : Nat} (h : i < map.array.length)
    (hu : (map.slot i).used = false) (key : K) (data : V) (size : Int) :
    ({ map with array := map.array.set i ⟨true, key, data⟩, size } : Hashmap K V).usedKeys.Perm
      (key :: map.usedKeys) := by
  rw [usedKeys_split h, Hashmap.usedKeys, List.set_eq_take_append_cons_drop, if_pos h]
  simp [hu]

/-- A used slot keeps its key. -/
theorem usedKeys_set_used {map : Hashmap K V} {i : Nat} (h : i < map.array.length)
    (hu : (map.slot i).used = true) (data : V) :
    ({ map with array := map.array.set i { map.slot i with value := data } } :
      Hashmap K V).usedKeys = map.usedKeys := by
  rw [usedKeys_split h, Hashmap.usedKeys, List.set_eq_take_append_cons_drop, if_pos h]
  simp [hu]

namespace Hashmap.Sound

variable {map map' : Hashmap K V} {key : K} {data : V}

/-- The probe for a stored key ends at a used slot. -/
theorem indexof_of_lookup (hs : map.Sound) (h : (map.lookup key).isSome) :
    ∃ i, hashmapIndexof map key = some i ∧ i < map.capacity ∧ (map.slot i).used = true := by
  obtain ⟨i, hi, hix, ⟨hu, -⟩ | ⟨hu, -⟩⟩ := hs.indexof key
  · exact ⟨i, hix, hi, hu⟩
  · simp [Hashmap.lookup, hix, hu] at h

/-- A table without entries holds no pointer. -/
theorem usedKeys_nil (hs : map.Sound) (h : ∀ k, map.lookup k = none) : map.usedKeys = [] := by
  rw [Hashmap.usedKeys, List.map_eq_nil_iff, List.filter_eq_nil_iff]
  intro el hel hu
  obtain ⟨i, hi, rfl⟩ := List.mem_iff_getElem.mp hel
  rw [← slot_eq_getElem hi] at hu
  have hsome := hs.lookup_of_used (hs.length ▸ hi) hu (hs.lawful.refl _)
  rw [h] at hsome
  cases hsome

theorem store_usedKeys (hs : map.Sound) (hrun : hashmapStore map key data = some map') :
    map'.usedKeys.Perm (if (map.lookup key).isSome then map.usedKeys else key :: map.usedKeys) := by
  obtain ⟨i, hi, hix, -⟩ := hs.indexof key
  have hlen : i < map.array.length := by rw [hs.length]; exact hi
  cases hu : (map.slot i).used with
  | true =>
    have hsome : (map.lookup key).isSome := by simp [Hashmap.lookup, hix, hu]
    have hstore : map' = { map with array := map.array.set i { map.slot i with value := data } } := by
      simpa [hashmapStore, hix, hu] using hrun.symm
    rw [if_pos hsome, hstore, usedKeys_set_used hlen hu]
  | false =>
    have hnone : ¬ (map.lookup key).isSome := by simp [Hashmap.lookup, hix, hu]
    have hstore : map' =
        { map with array := map.array.set i ⟨true, key, data⟩, size := map.size + 1 } := by
      simpa [hashmapStore, hix, hu] using hrun.symm
    rw [if_neg hnone, hstore]
    exact usedKeys_set_new hlen hu key data (map.size + 1)

/-- The loop of `hashmap_expand` over slots with different keys, none of them in the new table:
every pointer is stored. -/
theorem reinsert_usedKeys (l : List (HashmapElement K V)) {equals : K → K → Bool}
    (hs : map.Sound) (he : map.equals = equals)
    (hroom : 2 * (map.usedCount + l.length) ≤ map.capacity)
    (hpair : l.Pairwise fun a b =>
      a.used = true → b.used = true → equals a.key b.key = false)
    (hnew : ∀ el ∈ l, el.used = true → map.lookup el.key = none)
    (hrun : l.foldlM (hashmapReinsert (hashmapPutN 1)) map = some map') :
    map'.usedKeys.Perm ((l.filter (·.used)).map (·.key) ++ map.usedKeys) := by
  induction l generalizing map with
  | nil =>
    obtain rfl := Option.some.inj hrun
    exact List.Perm.refl _
  | cons el l ih =>
    obtain ⟨hel, hpair⟩ := List.pairwise_cons.mp hpair
    rw [List.length_cons] at hroom
    have hcap := capacity_ge hs.pow
    rw [List.foldlM_cons, hashmapReinsert] at hrun
    cases hu : el.used with
    | false =>
      rw [hu, if_neg Bool.false_ne_true] at hrun
      have hrest := ih hs he (by omega) hpair (fun e he' => hnew e (List.mem_cons_of_mem _ he')) hrun
      simpa [hu] using hrest
    | true =>
      have hload := loadFactor_le_of_half hs.size_eq (by omega)
      rw [if_pos hu, putN_storesAtLowLoad 0 _ _ _ hload] at hrun
      obtain ⟨map₁, hstore, hcap₁, hupd⟩ := hs.store el.key el.value (by omega)
      rw [hstore] at hrun
      have hnone := hnew el List.mem_cons_self hu
      have hfirst := hs.store_usedKeys hstore
      rw [hnone, if_neg (by simp)] at hfirst
      have hused : map₁.usedCount = map.usedCount + 1 := by
        rw [← usedKeys_length, hfirst.length_eq, List.length_cons, usedKeys_length]
      have hnew' : ∀ e ∈ l, e.used = true → map₁.lookup e.key = none := by
        intro e hmem hue
        have hne : map.equals e.key el.key = false := by
          rw [← Bool.not_eq_true]
          intro heq
          have hne := hel e hmem hu hue
          rw [← he, hs.lawful.symm heq] at hne
          cases hne
        rw [hupd.lookup, hne, if_neg (by simp)]
        exact hnew e (List.mem_cons_of_mem _ hmem) hue
      have hrest := ih hupd.sound (hupd.equals.trans he) (by omega) hpair hnew' hrun
      have hkeys : ((el :: l).filter (·.used)).map (·.key) =
          el.key :: (l.filter (·.used)).map (·.key) := by
        simp [hu]
      rw [hkeys]
      exact (hrest.trans (hfirst.append_left _)).trans List.perm_middle

/-- An expansion keeps the pointers. -/
theorem expandWith_usedKeys (hs : map.Sound)
    (hrun : hashmapExpandWith (hashmapPutN 1) map = some map') :
    map'.usedKeys.Perm map.usedKeys := by
  obtain ⟨hs₀, hused⟩ := doubled_sound hs.pow hs.lawful
  have hempty : map.doubled.usedKeys = [] := by
    rw [← List.length_eq_zero_iff, usedKeys_length, hused]
  have hroom : 2 * (map.doubled.usedCount + map.array.length) ≤ map.doubled.capacity := by
    rw [hused, hs.length, Nat.zero_add]
    exact Nat.le_refl _
  have hnew : ∀ el ∈ map.array, el.used = true → map.doubled.lookup el.key = none := by
    intro el _ _
    apply hs₀.lookup_none
    intro j hj hu
    have hpos : 0 < map.doubled.usedCount :=
      List.countP_pos_iff.mpr ⟨_, slot_mem (by rw [hs₀.length]; exact hj), hu⟩
    omega
  have hperm := hs₀.reinsert_usedKeys map.array rfl hroom hs.pairwise_ne hnew hrun
  rw [hempty, List.append_nil] at hperm
  exact hperm

/-- The table that a `put` probes has the same entries and the same pointers. -/
theorem putTable (hs : map.Sound) :
    ∃ map₁, hashmapPutTable map = some map₁ ∧ map₁.Sound ∧ map₁.usedKeys.Perm map.usedKeys ∧
      ∀ k, map₁.lookup k = map.lookup k := by
  by_cases hload : hashmapLoadFactor map > 70
  · obtain ⟨map₁, hrun, hs₁, -, -, -, -, hlook⟩ := hs.expandWith
    have hrun' := hrun _ (putN_storesAtLowLoad 0)
    exact ⟨map₁, by rw [hashmapPutTable, if_pos hload, hrun'], hs₁, hs.expandWith_usedKeys hrun',
      hlook⟩
  · exact ⟨map, by rw [hashmapPutTable, if_neg hload], hs, List.Perm.refl _, fun _ => rfl⟩

/-- A `put` of a stored key writes a used slot, also where it expands the table first. -/
theorem putSlot_used (hs : map.Sound) (h : (map.lookup key).isSome) :
    ∃ el, hashmapPutSlot map key = some el ∧ el.used = true := by
  obtain ⟨map₁, htable, hs₁, -, hlook⟩ := hs.putTable
  rw [← hlook] at h
  obtain ⟨i, hix, -, hu⟩ := hs₁.indexof_of_lookup h
  exact ⟨map₁.slot i, by simp [hashmapPutSlot, htable, hix], hu⟩

/-- A `put` stores its pointer exactly where the key is new. -/
theorem put_usedKeys (hs : map.Sound) (hrun : hashmapPut map key data = some map') :
    map'.usedKeys.Perm
      (if (map.lookup key).isSome then map.usedKeys else key :: map.usedKeys) := by
  obtain ⟨map₁, htable, hs₁, hperm, hlook⟩ := hs.putTable
  rw [hashmapPut_eq, htable] at hrun
  have hstore := hs₁.store_usedKeys hrun
  rw [hlook] at hstore
  split at hstore
  · rw [if_pos ‹_›]
    exact hstore.trans hperm
  · rw [if_neg ‹_›]
    exact hstore.trans (hperm.cons key)

end Hashmap.Sound

end TcpIp
