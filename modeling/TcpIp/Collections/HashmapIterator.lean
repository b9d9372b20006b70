import TcpIp.Lib.Cursor
import TcpIp.Lib.Trace
import TcpIp.Collections.HashmapLemmas

/-!
# The iterator of the hash map (`src/collections/hashmap.c`)

`hashmap_it_has_next` and `hashmap_it_next` look for the next used slot from the iterator's index
on, past the slot that was returned last (`consumed`). Their loop reads a slot before it compares
the index with the capacity, so it also reads the memory behind the array, which holds anything
(`past`).

* `At map it p`: the iterator stands at the position `p` in the list of the used slots.
  `hashmapItSeek_sought` is the search that both functions share.
* `hashmap_it_cursor`: the iterator is a cursor over the used slots, whatever `past` is.
* `hashmap_it_in_bounds_iff`: which calls read a slot behind the array.
-/

namespace TcpIp

open Cursor

variable {K V : Type}

/-- `struct hashmap_iterator`, and the indices of the slots that were read through it. -/
structure HashmapIterator (K V : Type) where
  index : Nat
  consumed : Bool
  map : Option (Hashmap K V)
  reads : List Nat

def hashmapItAlloc : HashmapIterator K V :=
  { index := 0, consumed := false, map := none, reads := [] }

def hashmapItReset (it : HashmapIterator K V) : HashmapIterator K V :=
  { it with index := 0, consumed := false }

def hashmapItSetMap (it : HashmapIterator K V) (map : Hashmap K V) : HashmapIterator K V :=
  hashmapItReset { it with map := some map }

/-- `map->array[index]`, where the memory from the end of the array on is `past`. -/
def Hashmap.slotOr (map : Hashmap K V) (past : Nat → HashmapElement K V) (index : Nat) :
    HashmapElement K V := map.array.getD index (past index)

/-- The slot at the index is read. -/
def HashmapIterator.read (it : HashmapIterator K V) : HashmapIterator K V :=
  { it with reads := it.reads ++ [it.index] }

/-- The loop of `hashmap_it_has_next` and `hashmap_it_next`. It ends within `capacity - index`
rounds. -/
def hashmapItScan (map : Hashmap K V) (past : Nat → HashmapElement K V) :
    Nat → HashmapIterator K V → HashmapIterator K V
  | 0, it => it.read
  | fuel + 1, it =>
    if !(map.slotOr past it.index).used && it.index < map.capacity then
      hashmapItScan map past fuel { it.read with index := it.index + 1 }
    else it.read

/-- `hashmap_it_has_next` and `hashmap_it_next` up to the end of the loop. -/
def hashmapItSeek (map : Hashmap K V) (past : Nat → HashmapElement K V)
    (it : HashmapIterator K V) : HashmapIterator K V :=
  let it := if it.consumed then { it with index := it.index + 1, consumed := false } else it
  hashmapItScan map past (map.capacity - it.index) it

/-- `none`: the assertion that the slot is used fails. -/
def hashmapItHasNext (past : Nat → HashmapElement K V) (it : HashmapIterator K V) :
    Option (Bool × HashmapIterator K V) :=
  match it.map with
  | none => some (false, it)
  | some map =>
    if it.index ≥ map.capacity then some (false, it)
    else
      let it := hashmapItSeek map past it
      if it.index < map.capacity then
        if (map.slotOr past it.index).used then some (true, it) else none
      else some (false, it)

/-- The key and the value are those that go to the caller's pointers. -/
def hashmapItNext (past : Nat → HashmapElement K V) (it : HashmapIterator K V) :
    Option (Option (K × V) × HashmapIterator K V) :=
  match it.map with
  | none => some (none, it)
  | some map =>
    if it.index ≥ map.capacity then some (none, it)
    else
      let it := hashmapItSeek map past it
      if it.index < map.capacity then
        let el := map.slotOr past it.index
        if el.used then some (some (el.key, el.value), { it with consumed := true }) else none
      else some (none, it)

def hashmapItCalls (past : Nat → HashmapElement K V) :
    Iterator (HashmapIterator K V) (K × V) where
  reset it := some (hashmapItReset it)
  hasNext := hashmapItHasNext past
  next := hashmapItNext past

def hashmapItSkip (past : Nat → HashmapElement K V) (n : Int) (it : HashmapIterator K V) :
    Option (Bool × Option (K × V) × HashmapIterator K V) :=
  (hashmapItCalls past).skip n it

/-! ## The used slots -/

/-- The keys and values of the used slots. -/
def usedEntries (slots : List (HashmapElement K V)) : List (K × V) :=
  (slots.filter (·.used)).map fun el => (el.key, el.value)

/-- The used slots of the table, in the order of their indices. -/
def Hashmap.entries (map : Hashmap K V) : List (K × V) := usedEntries map.array

theorem usedEntries_append (slots slots' : List (HashmapElement K V)) :
    usedEntries (slots ++ slots') = usedEntries slots ++ usedEntries slots' := by
  simp [usedEntries]

theorem Hashmap.entries_length (map : Hashmap K V) : map.entries.length = map.usedCount := by
  simp [entries, usedEntries, usedCount, List.countP_eq_length_filter]

/-- Where the next search begins. -/
def HashmapIterator.position (it : HashmapIterator K V) : Nat := it.index + it.consumed.toNat

/-- The iterator stands between the used slots before its position and those from it on. -/
structure At (map : Hashmap K V) (it : HashmapIterator K V) (p : Position (K × V)) : Prop where
  isSet : it.map = some map
  before : p.before = usedEntries (map.array.take it.position)
  rest : p.rest = usedEntries (map.array.drop it.position)

section Table

variable {map : Hashmap K V} {past : Nat → HashmapElement K V} {it : HashmapIterator K V}
  {p : Position (K × V)}

theorem slotOr_eq {i : Nat} (h : i < map.array.length) : map.slotOr past i = map.array[i] := by
  simp [Hashmap.slotOr, h]

/-- The used slots from index `i` on, and up to it. -/
theorem usedEntries_drop (past : Nat → HashmapElement K V) {i : Nat} (h : i < map.array.length) :
    usedEntries (map.array.drop i) =
      usedEntries [map.slotOr past i] ++ usedEntries (map.array.drop (i + 1)) := by
  rw [slotOr_eq h, List.drop_eq_getElem_cons h, ← usedEntries_append]
  rfl

theorem usedEntries_take (past : Nat → HashmapElement K V) {i : Nat} (h : i < map.array.length) :
    usedEntries (map.array.take (i + 1)) =
      usedEntries (map.array.take i) ++ usedEntries [map.slotOr past i] := by
  rw [slotOr_eq h, List.take_succ_eq_append_getElem h, usedEntries_append]

/-- The loop stops at the first used slot, or behind the array, and has read each slot up to
there. -/
theorem hashmapItScan_eq (past : Nat → HashmapElement K V)
    (hlen : map.array.length = map.capacity) {fuel : Nat} (hfuel : map.capacity - it.index ≤ fuel)
    (hi : it.index ≤ map.capacity) :
    ∃ j, it.index ≤ j ∧ j ≤ map.capacity ∧
      (j < map.capacity → (map.slotOr past j).used = true) ∧
      usedEntries (map.array.drop j) = usedEntries (map.array.drop it.index) ∧
      usedEntries (map.array.take j) = usedEntries (map.array.take it.index) ∧
      hashmapItScan map past fuel it =
        { it with index := j, reads := it.reads ++ List.range' it.index (j + 1 - it.index) } := by
  induction fuel generalizing it with
  | zero =>
    refine ⟨it.index, Nat.le_refl _, hi, by omega, rfl, rfl, ?_⟩
    simp [hashmapItScan, HashmapIterator.read]
  | succ fuel ih =>
    by_cases hgo : (map.slotOr past it.index).used = false ∧ it.index < map.capacity
    · obtain ⟨hunused, hlt⟩ := hgo
      obtain ⟨j, hj, hjc, hused, hdrop, htake, hrun⟩ :=
        @ih { it.read with index := it.index + 1 } (by simp only; omega) hlt
      simp only at hj hdrop htake hrun
      have hlt' : it.index < map.array.length := by omega
      refine ⟨j, by omega, hjc, hused, ?_, ?_, ?_⟩
      · rw [hdrop, usedEntries_drop past hlt']
        simp [usedEntries, hunused]
      · rw [htake, usedEntries_take past hlt']
        simp [usedEntries, hunused]
      · have hreads : List.range' it.index (j + 1 - it.index) =
            it.index :: List.range' (it.index + 1) (j + 1 - (it.index + 1)) := by
          rw [← List.range'_succ]
          congr 1
          omega
        rw [hashmapItScan, if_pos (by simp [hunused, hlt]), hrun, hreads]
        simp [HashmapIterator.read]
    · refine ⟨it.index, Nat.le_refl _, hi, fun hlt => ?_, rfl, rfl, ?_⟩
      · simpa [hlt] using hgo
      · simp only [hashmapItScan, Bool.and_eq_true, Bool.not_eq_true', decide_eq_true_eq, if_neg hgo]
        simp [HashmapIterator.read]

/-- The iterator after the search: at a used slot or at the end, and the slots that were read. -/
structure Sought (map : Hashmap K V) (past : Nat → HashmapElement K V) (p : Position (K × V))
    (it it' : HashmapIterator K V) : Prop where
  stands : At map it' p
  consumed : it'.consumed = false
  used : it'.index < map.capacity → (map.slotOr past it'.index).used = true
  reads : ∃ reads, it'.reads = it.reads ++ reads ∧ it'.index ∈ reads ∧ ∀ i ∈ reads, i ≤ it'.index

theorem hashmapItSeek_sought (past : Nat → HashmapElement K V)
    (hlen : map.array.length = map.capacity) (h : At map it p) (hi : it.index < map.capacity) :
    Sought map past p it (hashmapItSeek map past it) := by
  -- The slot that was returned last is passed first.
  obtain ⟨it₁, hit₁, hidx, hcons, hset, hreads⟩ : ∃ it₁ : HashmapIterator K V,
      hashmapItSeek map past it = hashmapItScan map past (map.capacity - it₁.index) it₁ ∧
      it₁.index = it.position ∧ it₁.consumed = false ∧ it₁.map = some map ∧
      it₁.reads = it.reads := by
    refine ⟨_, rfl, ?_⟩
    cases hc : it.consumed <;> simp [HashmapIterator.position, hc, h.isSet]
  have hpos : it₁.index ≤ map.capacity := by
    rw [hidx, HashmapIterator.position]
    have := Bool.toNat_le it.consumed
    omega
  obtain ⟨j, hj, hjc, hused, hdrop, htake, hrun⟩ :=
    hashmapItScan_eq past hlen (Nat.le_refl (map.capacity - it₁.index)) hpos
  rw [hit₁, hrun, hcons, hset, hreads]
  rw [hidx] at hdrop htake
  refine ⟨⟨rfl, ?_, ?_⟩, rfl, hused, _, rfl, ?_, ?_⟩
  · rw [h.before, ← htake]
    rfl
  · rw [h.rest, ← hdrop]
    rfl
  · rw [List.mem_range'_1]
    show it₁.index ≤ j ∧ j < _
    omega
  · intro i hi
    rw [List.mem_range'_1] at hi
    show i ≤ j
    omega

namespace Sought

variable {it' : HashmapIterator K V}

/-- At a used slot: it is the next entry. -/
theorem rest_of_lt (hlen : map.array.length = map.capacity) (h : Sought map past p it it')
    (hi : it'.index < map.capacity) :
    p.rest = ((map.slotOr past it'.index).key, (map.slotOr past it'.index).value) ::
      usedEntries (map.array.drop (it'.index + 1)) := by
  rw [h.stands.rest, HashmapIterator.position, h.consumed, Bool.toNat_false, Nat.add_zero,
    usedEntries_drop past (by omega)]
  simp [usedEntries, h.used hi]

theorem rest_of_not_lt (hlen : map.array.length = map.capacity) (h : Sought map past p it it')
    (hi : ¬ it'.index < map.capacity) : p.rest = [] := by
  rw [h.stands.rest, List.drop_eq_nil_of_le (by rw [HashmapIterator.position]; omega)]
  rfl

/-- The next entry is taken. -/
theorem take (hlen : map.array.length = map.capacity) (h : Sought map past p it it')
    (hi : it'.index < map.capacity) : At map { it' with consumed := true } (p.advance 1) where
  isSet := h.stands.isSet
  before := by
    have hpos : it'.position = it'.index := by simp [HashmapIterator.position, h.consumed]
    have hbefore := h.stands.before
    rw [hpos] at hbefore
    show p.before ++ p.rest.take 1 = usedEntries (map.array.take (it'.index + 1))
    rw [usedEntries_take past (by omega), hbefore, h.rest_of_lt hlen hi]
    simp [usedEntries, h.used hi]
  rest := by
    show p.rest.drop 1 = usedEntries (map.array.drop (it'.index + 1))
    rw [h.rest_of_lt hlen hi, List.drop_one, List.tail_cons]

end Sought

/-- Nothing is left once the index has reached the capacity. -/
theorem At.rest_of_le (hlen : map.array.length = map.capacity) (h : At map it p)
    (hi : map.capacity ≤ it.index) : p.rest = [] := by
  rw [h.rest, List.drop_eq_nil_of_le (by rw [HashmapIterator.position]; omega)]
  rfl

theorem hashmapItHasNext_done (h : it.map = none ∨ it.map = some map ∧ map.capacity ≤ it.index) :
    hashmapItHasNext past it = some (false, it) := by
  rcases h with h | ⟨h, hi⟩
  · simp [hashmapItHasNext, h]
  · simp [hashmapItHasNext, h, hi]

theorem hashmapItNext_done (h : it.map = none ∨ it.map = some map ∧ map.capacity ≤ it.index) :
    hashmapItNext past it = some (none, it) := by
  rcases h with h | ⟨h, hi⟩
  · simp [hashmapItNext, h]
  · simp [hashmapItNext, h, hi]

theorem hashmapItHasNext_eq (hlen : map.array.length = map.capacity) (h : At map it p)
    (hi : it.index < map.capacity) :
    hashmapItHasNext past it = some (!p.rest.isEmpty, hashmapItSeek map past it) := by
  have hsought := hashmapItSeek_sought past hlen h hi
  simp only [hashmapItHasNext, h.isSet, if_neg (Nat.not_le.mpr hi)]
  by_cases hlt : (hashmapItSeek map past it).index < map.capacity
  · simp [hlt, hsought.used hlt, hsought.rest_of_lt hlen hlt]
  · simp [hlt, hsought.rest_of_not_lt hlen hlt]

theorem hashmapItNext_eq (hlen : map.array.length = map.capacity) (h : At map it p)
    (hi : it.index < map.capacity) :
    hashmapItNext past it = some (p.rest.head?, { hashmapItSeek map past it with
      consumed := !p.rest.isEmpty }) := by
  have hsought := hashmapItSeek_sought past hlen h hi
  simp only [hashmapItNext, h.isSet, if_neg (Nat.not_le.mpr hi)]
  by_cases hlt : (hashmapItSeek map past it).index < map.capacity
  · simp [hlt, hsought.used hlt, hsought.rest_of_lt hlen hlt]
  · simp [hlt, hsought.rest_of_not_lt hlen hlt, ← hsought.consumed]

/-- The iterator is a cursor over the used slots. -/
theorem hashmapIt_simulates (past : Nat → HashmapElement K V)
    (hlen : map.array.length = map.capacity) :
    Simulates (hashmapItCalls past) fun it p => At map it p ∧ p.items = map.entries where
  reset := by
    rintro it p ⟨h, hitems⟩
    refine ⟨hashmapItReset it, rfl, ⟨h.isSet, rfl, ?_⟩, hitems⟩
    rw [hitems]
    rfl
  hasNext := by
    rintro it p ⟨h, hitems⟩
    by_cases hi : it.index < map.capacity
    · exact ⟨_, hashmapItHasNext_eq hlen h hi, (hashmapItSeek_sought past hlen h hi).stands, hitems⟩
    · have hle := Nat.not_lt.mp hi
      refine ⟨it, ?_, h, hitems⟩
      rw [h.rest_of_le hlen hle]
      exact hashmapItHasNext_done (Or.inr ⟨h.isSet, hle⟩)
  next := by
    rintro it p ⟨h, hitems⟩
    rw [← p.items_advance 1] at hitems
    by_cases hi : it.index < map.capacity
    · refine ⟨_, hashmapItNext_eq hlen h hi, ?_, hitems⟩
      have hsought := hashmapItSeek_sought past hlen h hi
      by_cases hlt : (hashmapItSeek map past it).index < map.capacity
      · rw [hsought.rest_of_lt hlen hlt]
        exact hsought.take hlen hlt
      · have hnil := hsought.rest_of_not_lt hlen hlt
        rw [Position.advance_of_nil hnil, hnil, List.isEmpty_nil, Bool.not_true, ← hsought.consumed]
        exact hsought.stands
    · have hle := Nat.not_lt.mp hi
      have hnil := h.rest_of_le hlen hle
      refine ⟨it, ?_, ?_, hitems⟩
      · rw [hnil]
        exact hashmapItNext_done (Or.inr ⟨h.isSet, hle⟩)
      · rw [Position.advance_of_nil hnil]
        exact h

/-- After `hashmap_it_set_map` or `hashmap_it_reset`, any calls are answered as by a cursor over the
used slots, and a full loop returns each of them once. -/
theorem hashmap_it_cursor (hlen : map.array.length = map.capacity)
    (past : Nat → HashmapElement K V) {it₀ it : HashmapIterator K V}
    (hit : it = hashmapItSetMap it₀ map ∨ it₀.map = some map ∧ it = hashmapItReset it₀) :
    (∀ calls, ∃ it', (hashmapItCalls past).run it calls =
      some (((Position.start map.entries).run calls).1, it')) ∧
    (∀ fuel, map.usedCount < fuel →
      ∃ it', (hashmapItCalls past).drain fuel it = some (map.entries, it')) ∧
    map.entries.length = map.usedCount := by
  have hat : At map it (Position.start map.entries) := by
    rcases hit with rfl | ⟨hset, rfl⟩
    · exact ⟨rfl, rfl, rfl⟩
    · exact ⟨hset, rfl, rfl⟩
  have hsim := hashmapIt_simulates past hlen
  refine ⟨fun calls => ?_, fun fuel hfuel => ?_, map.entries_length⟩
  · obtain ⟨it', hrun, -⟩ := hsim.run ⟨hat, rfl⟩ calls
    exact ⟨it', hrun⟩
  · have hlt : (Position.start map.entries).rest.length < fuel := by
      rw [← map.entries_length] at hfuel
      exact hfuel
    obtain ⟨it', hrun, -⟩ := hsim.drain ⟨hat, rfl⟩ hlt
    exact ⟨it', hrun⟩

end Table

/-- Sixteen slots; those at 3 and 7 are used. -/
def sampleTable : Hashmap Nat Char :=
  { array := ((callocElements 16).set 3 { used := true, key := 19, value := 'a' }).set 7
      { used := true, key := 7, value := 'b' },
    capacity := 16, size := 2, hash := fun k => k.toUInt64, equals := fun a b => a == b }

/-- The memory behind the array looks like a used slot. -/
theorem hashmap_it_cursor_sample :
    ∃ it', (hashmapItCalls fun _ => { used := true, key := 1, value := 'z' }).run
        (hashmapItSetMap hashmapItAlloc sampleTable)
        [.hasNext, .hasNext, .next, .skip 2, .reset, .skip 2, .next, .next, .hasNext] =
      some ([.hasNext true, .hasNext true, .next (some (19, 'a')), .skip false (some (7, 'b')),
        .reset, .skip true (some (7, 'b')), .next none, .next none, .hasNext false], it') :=
  (@hashmap_it_cursor _ _ sampleTable (by decide) _ hashmapItAlloc _ (Or.inl rfl)).1 _

/-! ## The slots that are read -/

/-- A call of the iterator's user, about one table. -/
inductive HashmapItCall where
  | setMap
  | call (call : Call)
deriving Repr, DecidableEq

def hashmapItStep (map : Hashmap K V) (past : Nat → HashmapElement K V)
    (it : HashmapIterator K V) : HashmapItCall → Option (HashmapIterator K V)
  | .setMap => some (hashmapItSetMap it map)
  | .call call => ((hashmapItCalls past).step it call).map Prod.snd

/-- Every slot that was read is one of the table. -/
def InBounds (map : Hashmap K V) (it : HashmapIterator K V) : Prop :=
  ∀ i ∈ it.reads, i < map.capacity

/-- The iterator has no table, or its index is already at the end: it looks at no slot. -/
def HashmapIterator.Idle (map : Hashmap K V) (it : HashmapIterator K V) : Prop :=
  it.map = none ∨ map.capacity ≤ it.index

/-- How many used slots there are from the iterator's position on. -/
def HashmapIterator.remaining (map : Hashmap K V) (it : HashmapIterator K V) : Nat :=
  (usedEntries (map.array.drop it.position)).length

/-- The search that the call makes ends at a used slot. -/
def Finds (map : Hashmap K V) (it : HashmapIterator K V) : HashmapItCall → Prop
  | .setMap | .call .reset => True
  | .call .hasNext | .call .next => it.Idle map ∨ 1 ≤ it.remaining map
  | .call (.skip n) => it.Idle map ∨ n ≤ it.remaining map

instance decidableFinds (map : Hashmap K V) (it : HashmapIterator K V) :
    ∀ call, Decidable (Finds map it call)
  | .setMap | .call .reset => inferInstanceAs (Decidable True)
  | .call .hasNext | .call .next =>
    inferInstanceAs (Decidable ((it.map = none ∨ map.capacity ≤ it.index) ∨ 1 ≤ it.remaining map))
  | .call (.skip n) =>
    inferInstanceAs (Decidable ((it.map = none ∨ map.capacity ≤ it.index) ∨ n ≤ it.remaining map))

section Table

variable {map : Hashmap K V} {past : Nat → HashmapElement K V} {it it' : HashmapIterator K V}
  {p : Position (K × V)}

theorem At.remaining_eq (h : At map it p) : it.remaining map = p.rest.length := by
  rw [HashmapIterator.remaining, h.rest]

theorem Sought.index_lt (hlen : map.array.length = map.capacity) (h : Sought map past p it it')
    (hp : 1 ≤ p.rest.length) : it'.index < map.capacity := by
  apply Classical.byContradiction
  intro hlt
  rw [h.rest_of_not_lt hlen hlt] at hp
  cases hp

/-- The search stays in the table exactly when it finds a slot: else it reads the one behind the
last. -/
theorem Sought.inBounds_iff (hlen : map.array.length = map.capacity)
    (h : Sought map past p it it') (hin : InBounds map it) :
    InBounds map it' ↔ 1 ≤ p.rest.length := by
  obtain ⟨reads, heq, hmem, hle⟩ := h.reads
  constructor
  · intro hin'
    have hlt := hin' it'.index (by rw [heq]; exact List.mem_append_right _ hmem)
    rw [h.rest_of_lt hlen hlt, List.length_cons]
    omega
  · intro hp i hi
    rw [heq, List.mem_append] at hi
    rcases hi with hi | hi
    · exact hin i hi
    · exact Nat.lt_of_le_of_lt (hle i hi) (h.index_lt hlen hp)

theorem hashmapItHasNext_inBounds (hlen : map.array.length = map.capacity) (h : At map it p)
    (hi : it.index < map.capacity) (hin : InBounds map it) {more : Bool}
    (hrun : hashmapItHasNext past it = some (more, it')) :
    InBounds map it' ↔ 1 ≤ p.rest.length := by
  rw [hashmapItHasNext_eq hlen h hi] at hrun
  obtain ⟨-, rfl⟩ := Prod.mk.inj (Option.some.inj hrun)
  exact (hashmapItSeek_sought past hlen h hi).inBounds_iff hlen hin

theorem hashmapItNext_inBounds (hlen : map.array.length = map.capacity) (h : At map it p)
    (hi : it.index < map.capacity) (hin : InBounds map it) {item : Option (K × V)}
    (hrun : hashmapItNext past it = some (item, it')) :
    InBounds map it' ↔ 1 ≤ p.rest.length := by
  rw [hashmapItNext_eq hlen h hi] at hrun
  obtain ⟨-, rfl⟩ := Prod.mk.inj (Option.some.inj hrun)
  have hiff := (hashmapItSeek_sought past hlen h hi).inBounds_iff hlen hin
  exact hiff

/-- One round of `hashmap_it_skip`, where a used slot remains. -/
theorem hashmapIt_round (past : Nat → HashmapElement K V)
    (hlen : map.array.length = map.capacity) (h : At map it p) (hi : it.index < map.capacity)
    (hin : InBounds map it) (hp : 1 ≤ p.rest.length) :
    ∃ it₁ it₂ item, hashmapItHasNext past it = some (true, it₁) ∧
      hashmapItNext past it₁ = some (item, it₂) ∧ At map it₂ (p.advance 1) ∧
      it₂.index < map.capacity ∧ InBounds map it₂ := by
  have hmore : (!p.rest.isEmpty) = true := by
    cases hrest : p.rest with
    | nil => simp [hrest] at hp
    | cons x xs => rfl
  have h₁ := hashmapItSeek_sought past hlen h hi
  have hi₁ := h₁.index_lt hlen hp
  have h₂ := hashmapItSeek_sought past hlen h₁.stands hi₁
  have hi₂ := h₂.index_lt hlen hp
  refine ⟨_, _, _, by rw [hashmapItHasNext_eq hlen h hi, hmore],
    hashmapItNext_eq hlen h₁.stands hi₁, ?_, hi₂, ?_⟩
  · rw [hmore]
    exact h₂.take hlen hi₂
  · exact (h₂.inBounds_iff hlen ((h₁.inBounds_iff hlen hin).mpr hp)).mpr hp

theorem hashmapItSkipLoop_inBounds (hlen : map.array.length = map.capacity) (h : At map it p)
    (hi : it.index < map.capacity) (hin : InBounds map it) (n : Nat) {item : Option (K × V)}
    {r : Nat × Option (K × V) × HashmapIterator K V}
    (hrun : (hashmapItCalls past).skipLoop n item it = some r) :
    InBounds map r.2.2 ↔ n ≤ p.rest.length := by
  induction n generalizing it p item with
  | zero =>
    obtain rfl := Option.some.inj hrun
    exact iff_of_true hin (Nat.zero_le _)
  | succ n ih =>
    by_cases hp : 1 ≤ p.rest.length
    · obtain ⟨it₁, it₂, item', hmore, hnext, h₂, hi₂, hin₂⟩ := hashmapIt_round past hlen h hi hin hp
      have hloop : (hashmapItCalls past).skipLoop n (item'.or item) it₂ = some r := by
        rw [← hrun]
        simp [Iterator.skipLoop, hashmapItCalls, hmore, hnext]
      rw [ih h₂ hi₂ hin₂ hloop, Position.rest_advance, List.length_drop]
      omega
    · have hnil : p.rest = [] := List.eq_nil_of_length_eq_zero (by omega)
      have hmore : hashmapItHasNext past it = _ := hashmapItHasNext_eq hlen h hi
      rw [hnil, List.isEmpty_nil, Bool.not_true] at hmore
      have hr : r = (n + 1, item, hashmapItSeek map past it) := by
        simp only [Iterator.skipLoop, hashmapItCalls, hmore, Option.bind_eq_bind,
          Option.bind_some] at hrun
        exact (Option.some.inj hrun).symm
      rw [hr, (hashmapItSeek_sought past hlen h hi).inBounds_iff hlen hin, hnil]
      simp

theorem hashmapItSkip_inBounds (hlen : map.array.length = map.capacity) (h : At map it p)
    (hi : it.index < map.capacity) (hin : InBounds map it) {n : Int}
    {r : Bool × Option (K × V) × HashmapIterator K V} (hrun : hashmapItSkip past n it = some r) :
    InBounds map r.2.2 ↔ n ≤ p.rest.length := by
  by_cases hn : n ≤ 0
  · rw [hashmapItSkip, Iterator.skip, if_pos hn] at hrun
    obtain rfl := Option.some.inj hrun
    exact iff_of_true hin (by omega)
  · rw [hashmapItSkip, Iterator.skip, if_neg hn] at hrun
    obtain ⟨r', hloop, hres⟩ := Option.bind_eq_some_iff.mp hrun
    obtain rfl := Option.some.inj hres
    rw [hashmapItSkipLoop_inBounds hlen h hi hin _ hloop]
    omega

/-- The iterator has no table, or stands in the list of the used slots. -/
def Placed (map : Hashmap K V) (it : HashmapIterator K V) : Prop :=
  it.map = none ∨ ∃ p, At map it p ∧ p.items = map.entries

/-- An iterator that looks at no slot is not moved either. -/
theorem hashmapItStep_idle (h : Placed map it) (hidle : it.Idle map) {call : Call}
    (hcall : call ≠ .reset) (hstep : hashmapItStep map past it (.call call) = some it') :
    it' = it := by
  have hdone : it.map = none ∨ it.map = some map ∧ map.capacity ≤ it.index := by
    rcases h with hnone | ⟨p, hat, -⟩
    · exact Or.inl hnone
    · exact hidle.imp_right fun hle => ⟨hat.isSet, hle⟩
  have hmore : (hashmapItCalls past).hasNext it = some (false, it) := hashmapItHasNext_done hdone
  have hnext : (hashmapItCalls past).next it = some (none, it) := hashmapItNext_done hdone
  cases call with
  | reset => exact absurd rfl hcall
  | hasNext => simpa [hashmapItStep, Iterator.step, hmore] using hstep.symm
  | next => simpa [hashmapItStep, Iterator.step, hnext] using hstep.symm
  | skip n =>
    obtain ⟨done, hskip⟩ := Iterator.skip_of_end hmore n
    simpa [hashmapItStep, Iterator.step, hskip] using hstep.symm

theorem Placed.step (hlen : map.array.length = map.capacity) (h : Placed map it)
    {call : HashmapItCall} (hstep : hashmapItStep map past it call = some it') :
    Placed map it' := by
  cases call with
  | setMap =>
    obtain rfl := Option.some.inj hstep
    exact Or.inr ⟨.start map.entries, ⟨rfl, rfl, rfl⟩, rfl⟩
  | call call =>
    rcases h with hnone | ⟨p, h, hitems⟩
    · by_cases hcall : call = .reset
      · subst hcall
        obtain rfl := Option.some.inj hstep
        exact Or.inl hnone
      · rw [hashmapItStep_idle (Or.inl hnone) (Or.inl hnone) hcall hstep]
        exact Or.inl hnone
    · obtain ⟨it₁, hrun, h₁⟩ := (hashmapIt_simulates past hlen).step ⟨h, hitems⟩ call
      rw [hashmapItStep, hrun] at hstep
      obtain rfl := Option.some.inj hstep
      exact Or.inr ⟨_, h₁⟩

/-- A call that looks at no slot reads none. -/
theorem hashmapItStep_inBounds_idle (h : Placed map it) (hidle : it.Idle map)
    (hin : InBounds map it) {call : HashmapItCall}
    (hstep : hashmapItStep map past it call = some it') : InBounds map it' ∧ Finds map it call := by
  rcases call with _ | (_ | _ | _ | n)
  · obtain rfl := Option.some.inj hstep
    exact ⟨hin, trivial⟩
  · obtain rfl := Option.some.inj hstep
    exact ⟨hin, trivial⟩
  all_goals
    rw [hashmapItStep_idle h hidle (by simp) hstep]
    exact ⟨hin, Or.inl hidle⟩

/-- Any other call stays in the table exactly when what it looks for is there. -/
theorem hashmapItStep_inBounds_busy (hlen : map.array.length = map.capacity) (h : At map it p)
    (hidle : ¬ it.Idle map) (hin : InBounds map it) {call : HashmapItCall}
    (hstep : hashmapItStep map past it call = some it') :
    InBounds map it' ↔ Finds map it call := by
  have hi : it.index < map.capacity := Nat.not_le.mp fun hle => hidle (Or.inr hle)
  cases call with
  | setMap =>
    obtain rfl := Option.some.inj hstep
    exact iff_of_true hin trivial
  | call call =>
    rw [hashmapItStep, Option.map_eq_some_iff] at hstep
    obtain ⟨⟨answer, _⟩, hrun, rfl⟩ := hstep
    cases call with
    | reset =>
      obtain ⟨-, rfl⟩ := Prod.mk.inj (Option.some.inj hrun)
      exact iff_of_true hin trivial
    | hasNext =>
      obtain ⟨⟨more, it₁⟩, hmore, hres⟩ := Option.bind_eq_some_iff.mp hrun
      obtain ⟨-, rfl⟩ := Prod.mk.inj (Option.some.inj hres)
      rw [hashmapItHasNext_inBounds hlen h hi hin hmore, Finds, h.remaining_eq]
      exact (or_iff_right hidle).symm
    | next =>
      obtain ⟨⟨item, it₁⟩, hnext, hres⟩ := Option.bind_eq_some_iff.mp hrun
      obtain ⟨-, rfl⟩ := Prod.mk.inj (Option.some.inj hres)
      rw [hashmapItNext_inBounds hlen h hi hin hnext, Finds, h.remaining_eq]
      exact (or_iff_right hidle).symm
    | skip n =>
      obtain ⟨⟨done, item, it₁⟩, hskip, hres⟩ := Option.bind_eq_some_iff.mp hrun
      obtain ⟨-, rfl⟩ := Prod.mk.inj (Option.some.inj hres)
      rw [Finds, h.remaining_eq, or_iff_right hidle]
      exact hashmapItSkip_inBounds hlen h hi hin hskip

theorem hashmapItStep_inBounds_iff (hlen : map.array.length = map.capacity) (h : Placed map it)
    (hin : InBounds map it) {call : HashmapItCall}
    (hstep : hashmapItStep map past it call = some it') :
    InBounds map it' ↔ Finds map it call := by
  by_cases hidle : it.Idle map
  · obtain ⟨hin', hfinds⟩ := hashmapItStep_inBounds_idle h hidle hin hstep
    exact iff_of_true hin' hfinds
  · obtain ⟨p, hat, -⟩ := h.resolve_left fun hnone => hidle (Or.inl hnone)
    exact hashmapItStep_inBounds_busy hlen hat hidle hin hstep

/-- The slots read in a run all belong to the table exactly when every question or request for a
next entry, and every skip, comes while there are as many entries left. -/
theorem hashmap_it_in_bounds_iff (map : Hashmap K V) (hlen : map.array.length = map.capacity)
    (past : Nat → HashmapElement K V) (calls : List HashmapItCall) :
    Trace.Along (hashmapItStep map past) (InBounds map) hashmapItAlloc calls ↔
      Trace.Guarded (hashmapItStep map past) (Finds map) hashmapItAlloc calls := by
  refine @Trace.along_iff_guarded _ _ _ (InBounds map) (fun it => Placed map it ∧ InBounds map it)
    (Finds map) (fun it h => h.2) ?_ ?_ _ ⟨Or.inl rfl, fun i hi => absurd hi List.not_mem_nil⟩ calls
  · rintro it call it' ⟨hplaced, hin⟩ hfinds hstep
    exact ⟨hplaced.step hlen hstep, (hashmapItStep_inBounds_iff hlen hplaced hin hstep).mpr hfinds⟩
  · rintro it call it' ⟨hplaced, hin⟩ hstep hfinds hin'
    exact hfinds ((hashmapItStep_inBounds_iff hlen hplaced hin hstep).mp hin')

end Table

/-- As long as entries are left, the loop does not leave the table. -/
theorem hashmap_it_in_bounds_two :
    Trace.Along (hashmapItStep sampleTable fun _ => default) (InBounds sampleTable) hashmapItAlloc
      [.call .hasNext, .setMap, .call .hasNext, .call .next, .call .reset, .call (.skip 2)] :=
  (hashmap_it_in_bounds_iff sampleTable (by decide) (fun _ => default)
    [.call .hasNext, .setMap, .call .hasNext, .call .next, .call .reset, .call (.skip 2)]).mpr
    (by decide)

/-- `hashmap_it_has_next` on the fresh table of sixteen slots reads the seventeenth. -/
theorem hashmap_it_reads_past_empty :
    ∃ map : Hashmap Nat Char, hashmapAlloc 16 (fun k => k.toUInt64) (· == ·) = some map ∧
      map.array.length = map.capacity ∧
      ¬ Trace.Along (hashmapItStep map fun _ => default) (InBounds map) hashmapItAlloc
        [.setMap, .call .hasNext] := by
  refine ⟨_, rfl, by decide, fun halong => ?_⟩
  have hreads := (halong.2 _ rfl).2 _ rfl
  exact absurd (hreads 16 (by decide)) (by decide)

end TcpIp
