import TcpIp.Collections.HashmapConc

/-!
# Lookups without the lock are linearizable

While no expansion overlaps with it and its key is in the table, a lookup behaves as if it read the
whole table at once, at some time while it ran, although it takes no lock (`hashmap_get_unlocked`).

* `MapMemory.Holds`: between two calls of `hashmap_put`, memory shows the table of the calls so far.
* `Partway`: in the middle of one that does not expand, the table is that from before, with at most
  the one slot rewritten where its probe ended.
* `Sees`: what both give to a lookup. Each key is where it was, with the value of the calls that
  have taken effect.
* `MapThreads.Ok`: the invariant.
-/

namespace TcpIp

open OpenAddressing Blocks Trace

variable {K V : Type} {hash : K → UInt64} {equals : K → K → Bool}

/-! ## The calls so far -/

theorem lastPut_cons (entry : K × V) (l : List (K × V)) (k : K) :
    lastPut equals (entry :: l) k =
      if equals k entry.1 then some entry.2 else lastPut equals l k := by
  unfold lastPut
  rw [List.find?_cons]
  cases equals k entry.1 <;> rfl

/-- A key stays in the table. -/
theorem lastPut_isSome_of_suffix {l l' : List (K × V)} {k : K} (h : l <:+ l')
    (hk : (lastPut equals l k).isSome) : (lastPut equals l' k).isSome := by
  unfold lastPut at hk ⊢
  rw [Option.isSome_map, List.find?_isSome] at hk ⊢
  obtain ⟨entry, hmem, heq⟩ := hk
  exact ⟨entry, h.subset hmem, heq⟩

section Shown

variable {s s' : MapThreads K V} {i : Nat} {a b : MapTask K V}

theorem MapThreads.stored_suffix_shown (s : MapThreads K V) : s.stored <:+ s.shown := by
  unfold stored shown storing
  cases s.owner with
  | none => exact List.suffix_refl _
  | some holder =>
    rw [Option.isSome_some, if_pos rfl]
    split
    · exact List.suffix_refl _
    · exact List.tail_suffix _

theorem MapThreads.shown_suffix_puts (s : MapThreads K V) : s.shown <:+ s.puts := by
  unfold shown
  split
  · exact List.tail_suffix _
  · exact List.suffix_refl _

theorem MapThreads.shown_of_unowned (h : s.owner = none) : s.shown = s.puts := by
  unfold shown storing
  rw [h]
  rfl

/-- Thread `i` has moved on, and has no write of a value to come that it had not before. -/
theorem storing_moved (howner : s'.owner = s.owner) (htasks : s'.tasks = s.tasks.set i b)
    (hi : s.tasks[i]? = some a) (hab : b.storing = true → a.storing = true)
    (h : s'.storing = true) : s.storing = true := by
  unfold MapThreads.storing at h ⊢
  rw [howner, htasks] at h
  obtain ⟨holder, hholder, h⟩ := (Option.any_eq_true _ _).mp h
  obtain ⟨task, htask, h⟩ := (Option.any_eq_true _ _).mp h
  rw [getElem?_moved hi] at htask
  rw [hholder, Option.any_some]
  split at htask
  · rename_i heq
    rw [heq, hi]
    exact hab (htask ▸ h)
  · rw [htask]
    exact h

theorem shown_moved (howner : s'.owner = s.owner) (hputs : s'.puts = s.puts)
    (htasks : s'.tasks = s.tasks.set i b) (hi : s.tasks[i]? = some a)
    (hab : b.storing = true → a.storing = true) : s.shown <:+ s'.shown := by
  unfold MapThreads.shown
  rw [hputs]
  split
  · split
    · exact List.suffix_refl _
    · exact List.tail_suffix _
  · rename_i hnot
    rw [if_neg fun h => hnot (storing_moved howner htasks hi hab h)]

end Shown

variable [Inhabited K] [Inhabited V]

section Moves

variable {s s' : MapThreads K V} {e : MapEvent K V}

/-- A call of `hashmap_put` takes effect once and for all. -/
theorem MapMoves.shown_grows (h : MapMoves hash equals s e s') : s.shown <:+ s'.shown := by
  cases h with
  | put howner =>
    rw [MapThreads.shown_of_unowned howner]
    unfold MapThreads.shown
    split
    · exact List.suffix_refl _
    · exact List.suffix_cons _ _
  | get htask => exact shown_moved rfl rfl rfl htask fun h => absurd h Bool.false_ne_true
  | read htask => exact shown_moved rfl rfl rfl htask fun h => absurd h Bool.false_ne_true
  | release => exact MapThreads.shown_suffix_puts s
  | write htask =>
    refine shown_moved rfl rfl rfl htask fun h => ?_
    exact List.any_eq_true.mpr ((List.any_eq_true.mp h).imp fun _ hx =>
      ⟨List.mem_cons_of_mem _ hx.1, hx.2⟩)

theorem MapMoves.stored_grows (h : MapMoves hash equals s e s') : s.stored <:+ s'.stored := by
  cases h with
  | put howner =>
    unfold MapThreads.stored
    rw [howner]
    exact List.suffix_refl _
  | get | read | write => exact List.suffix_refl _
  | release =>
    unfold MapThreads.stored
    split
    · exact List.tail_suffix _
    · exact List.suffix_refl _

/-- Only the thread of the event moves. -/
def MapEvent.thread : MapEvent K V → Nat
  | put i _ _ | get i _ | step i => i

theorem MapMoves.others (h : MapMoves hash equals s e s') {j : Nat} (hj : e.thread ≠ j) :
    s'.tasks[j]? = s.tasks[j]? := by
  cases h with
  | put | get | read | release | write => exact List.getElem?_set_ne hj

end Moves

/-! ## Between the calls -/

/-- Memory shows the table of the calls `l`. -/
structure MapMemory.Holds (mem : MapMemory K V) (hash : K → UInt64) (equals : K → K → Bool)
    (l : List (K × V)) : Prop where
  block : mem.heap.block mem.array = some (mem.table hash equals).array
  sound : (mem.table hash equals).Sound
  lookup : ∀ k, (mem.table hash equals).lookup k = lastPut equals l k

section Holds

variable {mem mem' : MapMemory K V} {l : List (K × V)} {t : MapScript K V} {key : K} {data : V}

theorem MapMemory.Holds.shows (h : mem.Holds hash equals l) :
    mem.Shows (mem.script hash equals) :=
  ⟨rfl, h.block, rfl, rfl, rfl⟩

theorem MapMemory.Shows.holds (h : mem.Shows t) (hhash : t.map.hash = hash)
    (hequals : t.map.equals = equals) (hs : t.map.Sound)
    (hlookup : ∀ k, t.map.lookup k = lastPut equals l k) : mem.Holds hash equals l := by
  have htable := h.table hhash hequals
  refine ⟨?_, htable ▸ hs, htable ▸ hlookup⟩
  rw [htable, h.array]
  exact h.block

/-- All the writes of a `hashmap_put`. -/
theorem MapMemory.Holds.put (h : mem.Holds hash equals l) (key : K) (data : V) :
    ∃ script mem', putScriptN 2 (mem.script hash equals) key data = some script ∧
      mem.writes script.writes = some mem' ∧ mem'.Holds hash equals ((key, data) :: l) := by
  obtain ⟨script, mem', hscript, hwrites, hgoes, -, hupdated⟩ :=
    exists_putScript h.block h.sound key data
  refine ⟨script, mem', hscript, hwrites, ?_⟩
  refine hgoes.shows.holds hupdated.hash hupdated.equals hupdated.sound fun k => ?_
  rw [hupdated.lookup, h.lookup, lastPut_cons]
  rfl

/-- The writes of one that does not expand the table. -/
theorem putScriptN_of_room (hload : ¬ hashmapLoadFactor (mem.table hash equals) > 70)
    {script : MapScript K V} (h : putScriptN 2 (mem.script hash equals) key data = some script) :
    ∃ index, hashmapIndexof (mem.table hash equals) key = some index ∧
      script.writes = storeWrites (mem.script hash equals) index key data := by
  rw [putScriptN] at h
  split at h
  · rename_i hgt
    exact absurd hgt hload
  · have hstore : storeScript (mem.script hash equals) key data = some script := h
    obtain ⟨index, hindex, hstore⟩ := Option.bind_eq_some_iff.mp hstore
    obtain ⟨map, -, hstore⟩ := Option.bind_eq_some_iff.mp hstore
    obtain rfl := Option.some.inj hstore
    exact ⟨index, hindex, List.nil_append _⟩

end Holds

/-! ## In the middle of a call -/

/-- A write to slot `index`, or to the size. -/
def MapWrite.AtSlot (index : Nat) : MapWrite K V → Prop
  | .value _ i _ | .key _ i _ | .used _ i => i = index
  | .size _ => True
  | .calloc _ | .array _ | .capacity _ | .free _ => False

/-- The table of `s`, with at most slot `index` rewritten. -/
structure MapScript.Near (s : MapScript K V) (index : Nat) (t : MapScript K V) : Prop where
  array : t.array = s.array
  hash : t.map.hash = s.map.hash
  equals : t.map.equals = s.map.equals
  capacity : t.map.capacity = s.map.capacity
  length : t.map.array.length = s.map.array.length
  slot : ∀ j, j ≠ index → t.map.slot j = s.map.slot j

section Near

variable {s t : MapScript K V} {index : Nat} {key : K} {data : V}

theorem storeWrites_atSlot : ∀ w ∈ storeWrites s index key data, w.AtSlot index := by
  intro w hw
  unfold storeWrites at hw
  split at hw
  · obtain rfl := List.mem_singleton.mp hw
    rfl
  · simp only [List.mem_cons, List.not_mem_nil, or_false] at hw
    rcases hw with rfl | rfl | rfl | rfl
    · rfl
    · rfl
    · rfl
    · trivial

/-- Where the slot is used already, the value is the only write. -/
theorem written_of_used {done left : List (MapWrite K V)} (hi : index < s.map.array.length)
    (hu : (s.map.slot index).used = true) (hscript : storeWrites s index key data = done ++ left) :
    (left.any MapWrite.isValue = true ∧
      (done.foldl MapScript.apply s).map.slot index = s.map.slot index) ∨
    (left.any MapWrite.isValue = false ∧
      (done.foldl MapScript.apply s).map.slot index = { s.map.slot index with value := data }) := by
  rw [storeWrites, if_pos hu] at hscript
  rcases List.append_eq_singleton_iff.mp hscript.symm with ⟨rfl, rfl⟩ | ⟨rfl, rfl⟩
  · exact Or.inl ⟨rfl, rfl⟩
  · exact Or.inr ⟨rfl, MapScript.slot_set s hi _⟩

theorem MapScript.Near.set (h : s.Near index t) (el : HashmapElement K V) :
    s.Near index (t.set index el) := by
  refine ⟨h.array, h.hash, h.equals, h.capacity, List.length_set.trans h.length, fun j hj => ?_⟩
  rw [← h.slot j hj, MapScript.set, Hashmap.slot, Hashmap.slot, List.getD_eq_getElem?_getD,
    List.getD_eq_getElem?_getD, List.getElem?_set_ne (Ne.symm hj)]

theorem MapScript.Near.apply (h : s.Near index t) {w : MapWrite K V} (hw : w.AtSlot index) :
    s.Near index (t.apply w) := by
  cases w with
  | value | key | used =>
    obtain rfl := hw
    exact h.set _
  | size n => exact ⟨h.array, h.hash, h.equals, h.capacity, h.length, h.slot⟩
  | calloc | array | capacity | free => exact hw.elim

theorem MapScript.Near.foldl (h : s.Near index t) {ws : List (MapWrite K V)}
    (hws : ∀ w ∈ ws, w.AtSlot index) : s.Near index (ws.foldl MapScript.apply t) := by
  induction ws generalizing t with
  | nil => exact h
  | cons w ws ih =>
    exact ih (h.apply (hws w List.mem_cons_self)) fun w' hw' => hws w' (List.mem_cons_of_mem _ hw')

end Near

/-- In the middle of a `hashmap_put` that does not expand the table: `old` is the table from before,
and the writes `left` are to come. -/
structure Partway (hash : K → UInt64) (equals : K → K → Bool) (mem : MapMemory K V)
    (stored : List (K × V)) (key : K) (data : V) (left : List (MapWrite K V))
    (old : MapScript K V) : Prop where
  sound : old.map.Sound
  lookup : ∀ k, old.map.lookup k = lastPut equals stored k
  hash : old.map.hash = hash
  equals : old.map.equals = equals
  done : ∃ index done, hashmapIndexof old.map key = some index ∧
    storeWrites old index key data = done ++ left ∧ mem.Shows (done.foldl MapScript.apply old)

/-- What a lookup sees: each key of `old` is still there, with the value of the calls `shown`. -/
structure Sees (hash : K → UInt64) (equals : K → K → Bool) (mem : MapMemory K V)
    (stored shown : List (K × V)) (old : Hashmap K V) : Prop where
  sound : old.Sound
  lookup : ∀ k, old.lookup k = lastPut equals stored k
  keeps : old.Keeps (mem.table hash equals)
  live : mem.Live hash equals
  value : ∀ {k d}, old.Finds k d → lastPut equals shown k =
    some ((mem.table hash equals).slot ((mem.table hash equals).probe k d)).value

section Partway

variable {mem mem' : MapMemory K V} {stored : List (K × V)} {key : K} {data : V}
  {left : List (MapWrite K V)} {w : MapWrite K V} {old : MapScript K V}

theorem MapMemory.Holds.sees (h : mem.Holds hash equals stored) :
    Sees hash equals mem stored stored (mem.table hash equals) where
  sound := h.sound
  lookup := h.lookup
  keeps := .refl _
  live := ⟨h.sound.fits, h.block⟩
  value hf := by rw [← h.lookup, hf.lookup h.sound]

theorem MapMemory.Holds.partway (h : mem.Holds hash equals stored) {index : Nat}
    (hindex : hashmapIndexof (mem.table hash equals) key = some index) :
    Partway hash equals mem stored key data
      (storeWrites (mem.script hash equals) index key data) (mem.script hash equals) :=
  ⟨h.sound, h.lookup, rfl, rfl, index, [], hindex, rfl, h.shows⟩

theorem Hashmap.Sound.index_lt {map : Hashmap K V} (hs : map.Sound) {index : Nat}
    (h : hashmapIndexof map key = some index) : index < map.array.length :=
  hs.length.symm ▸ indexof_lt hs.pow h

theorem Hashmap.Sound.equal_of_indexof {map : Hashmap K V} (hs : map.Sound) {index : Nat}
    (h : hashmapIndexof map key = some index) (hu : (map.slot index).used = true) :
    map.equals key (map.slot index).key = true := by
  obtain ⟨i, -, hi, ⟨-, heq⟩ | ⟨hfree, -⟩⟩ := hs.indexof key
  · obtain rfl : i = index := Option.some.inj (hi.symm.trans h)
    exact heq
  · obtain rfl : i = index := Option.some.inj (hi.symm.trans h)
    exact absurd hu (by rw [hfree]; exact Bool.false_ne_true)

/-- One write of it. -/
theorem Partway.write (h : Partway hash equals mem stored key data (w :: left) old)
    (hw : mem.write w = some mem') :
    Partway hash equals mem' stored key data left old ∧ mem'.array = mem.array := by
  obtain ⟨index, done, hindex, hscript, hshows⟩ := h.done
  have hmem : w ∈ storeWrites old index key data := by
    rw [hscript]
    exact List.mem_append_right _ List.mem_cons_self
  have hlocal := storeWrites_local key data (h.sound.index_lt hindex) w hmem
  obtain ⟨mem₁, hw₁, hshows₁, -⟩ := hshows.write hlocal.foldl
  obtain rfl := Option.some.inj (hw₁.symm.trans hw)
  refine ⟨⟨h.sound, h.lookup, h.hash, h.equals, index, done ++ [w], hindex, ?_, ?_⟩, ?_⟩
  · rw [hscript, List.append_assoc, List.singleton_append]
  · rw [List.foldl_append]
    exact hshows₁
  · rw [hshows₁.array, hshows.array]
    exact (MapScript.apply_array _ w).1

/-- The writes so far do not move a key, and change at most the value of `key`. -/
theorem Partway.sees (h : Partway hash equals mem stored key data left old) :
    Sees hash equals mem stored
      (if left.any MapWrite.isValue then stored else (key, data) :: stored) old.map := by
  have hs := h.sound
  obtain ⟨index, done, hindex, hscript, hshows⟩ := h.done
  have hlen := hs.index_lt hindex
  have hnear : old.Near index (done.foldl MapScript.apply old) :=
    MapScript.Near.foldl ⟨rfl, rfl, rfl, rfl, rfl, fun _ _ => rfl⟩ fun w hw =>
      storeWrites_atSlot w (hscript ▸ List.mem_append_left _ hw)
  have htable := hshows.table (hnear.hash.trans h.hash) (hnear.equals.trans h.equals)
  have hused := fun hu => written_of_used hlen hu hscript
  have hprobe := probe_congr hnear.hash hnear.capacity
  refine ⟨hs, h.lookup, ?_, ⟨?_, ?_⟩, fun {k d} hf => ?_⟩
  · rw [htable]
    refine ⟨hnear.hash, hnear.equals, hnear.capacity, fun i hu => ?_⟩
    by_cases hi : i = index
    · subst hi
      rcases hused hu with ⟨-, hslot⟩ | ⟨-, hslot⟩
      · rw [hslot]
        exact ⟨hu, rfl⟩
      · rw [hslot]
        exact ⟨hu, rfl⟩
    · rw [hnear.slot i hi]
      exact ⟨hu, rfl⟩
  · rw [htable]
    exact ⟨hnear.capacity.symm ▸ hs.pow, hnear.length.trans (hs.length.trans hnear.capacity.symm)⟩
  · rw [htable, hshows.array]
    exact hshows.block
  · have hold := hf.lookup hs
    have hu := hf.used d (Nat.le_refl d)
    rw [h.lookup] at hold
    rw [htable, hprobe]
    by_cases hi : old.map.probe k d = index
    · have hkey : equals k key = true := by
        rw [← h.equals]
        exact hs.lawful.trans hf.equal (hs.lawful.symm (hi ▸ hs.equal_of_indexof hindex (hi ▸ hu)))
      rw [hi] at hold hu ⊢
      rcases hused hu with ⟨hstill, hslot⟩ | ⟨hwritten, hslot⟩
      · rw [if_pos hstill, hslot]
        exact hold
      · rw [hwritten, if_neg Bool.false_ne_true, lastPut_cons, if_pos hkey, hslot]
    · rw [hnear.slot _ hi]
      split
      · exact hold
      · rw [lastPut_cons, if_neg, hold]
        -- The probe for an equal key ends in the same slot.
        intro hkey
        rw [← h.equals] at hkey
        have hsame := hs.indexof_of_used (Hashmap.probe_lt hs.capacity_pos) hu
          (hs.lawful.trans (hs.lawful.symm hkey) hf.equal)
        exact hi (Option.some.inj (hsame.symm.trans hindex))

end Partway

/-! ## The invariant -/

/-- A lookup has `m` reads left. -/
def Reading (hash : K → UInt64) (equals : K → K → Bool) (mem : MapMemory K V) (key : K)
    (phase : GetPhase V) (m : Nat) : Prop :=
  ∃ d, (mem.table hash equals).Finds key d ∧
    phase.At (mem.table hash equals) mem.array key d m

/-- A lookup that has returned gave the value of the calls that had taken effect at some time while
it ran; one that has not is on its way. -/
def GetOk (hash : K → UInt64) (equals : K → K → Bool) (s : MapThreads K V) (key : K)
    (since : List (K × V)) (phase : GetPhase V) : Prop :=
  (∃ v past, phase = .returned v ∧ since <:+ past ∧ past <:+ s.shown ∧
    lastPut equals past key = some v) ∨
  (since <:+ s.shown ∧ (lastPut equals s.stored key).isSome ∧
    ∃ m, Reading hash equals s.mem key phase m)

structure MapThreads.Ok (hash : K → UInt64) (equals : K → K → Bool) (s : MapThreads K V) :
    Prop where
  quiet : s.owner = none → s.mem.Holds hash equals s.puts
  writer : ∀ {i expands}, s.owner = some (i, expands) → ∃ left, s.tasks[i]? = some (.put left) ∧
    (∃ mem, s.mem.writes left = some mem ∧ mem.Holds hash equals s.puts) ∧
    (expands = false → ∃ key data stored old, s.puts = (key, data) :: stored ∧
      Partway hash equals s.mem stored key data left old)
  only : ∀ {i : Nat} {left}, s.tasks[i]? = some (.put left) → s.owner.map Prod.fst = some i
  calm : s.owner.map Prod.snd = some true → ∀ {i : Nat} {task}, s.tasks[i]? = some task →
    task.reads = false
  gets : ∀ {i : Nat} {key since phase},
    s.tasks[i]? = some (.get key since phase) → GetOk hash equals s key since phase

section Reading

variable {mem mem' : MapMemory K V} {stored shown shown' : List (K × V)} {old : Hashmap K V}
  {key : K} {phase : GetPhase V} {m : Nat}

omit [Inhabited K] [Inhabited V] in
theorem GetPhase.At.congr {map map' : Hashmap K V} {a d : Nat} (hprobe : map'.probe = map.probe)
    (h : phase.At map a key d m) : phase.At map' a key d m := by
  cases phase with
  | begun => exact h
  | indexed | probing | occupied | missed | found | result | value =>
    simp only [GetPhase.At, hprobe] at h ⊢
    exact h
  | returned => exact h

omit [Inhabited K] [Inhabited V] in
theorem GetPhase.At.le {map : Hashmap K V} {a d : Nat} (h : phase.At map a key d m) :
    m ≤ 4 * d + 7 := by
  cases phase with
  | begun => exact Nat.le_of_eq h
  | indexed =>
    obtain ⟨e, -, -, rfl⟩ := h
    omega
  | probing | occupied =>
    obtain ⟨-, e, -, -, rfl⟩ := h
    omega
  | missed =>
    obtain ⟨e, -, -, rfl⟩ := h
    omega
  | found =>
    obtain ⟨-, rfl⟩ := h
    omega
  | result | value =>
    obtain ⟨-, -, rfl⟩ := h
    omega
  | returned => exact h.elim

/-- The probe for a key that was there ends where it ended. -/
theorem Sees.finds (h : Sees hash equals mem stored shown old)
    (hknown : (lastPut equals stored key).isSome) :
    ∃ d, old.Finds key d ∧ (mem.table hash equals).Finds key d := by
  obtain ⟨d, hd⟩ := h.sound.exists_finds ((h.lookup key).symm ▸ hknown)
  exact ⟨d, hd, hd.keeps h.keeps⟩

/-- A write to the table does not disturb a lookup. -/
theorem Reading.stays (hr : Reading hash equals mem key phase m)
    (h : Sees hash equals mem stored shown old) (h' : Sees hash equals mem' stored shown' old)
    (harray : mem'.array = mem.array) (hknown : (lastPut equals stored key).isSome) :
    Reading hash equals mem' key phase m := by
  obtain ⟨d, hd, hat⟩ := hr
  obtain ⟨d', hold, hd'⟩ := h.finds hknown
  obtain rfl := hd.unique hd'
  refine ⟨d, hold.keeps h'.keeps, harray ▸ hat.congr ?_⟩
  rw [probe_congr h'.keeps.hash h'.keeps.capacity, probe_congr h.keeps.hash h.keeps.capacity]

/-- A read of a lookup that finds its key. -/
theorem Reading.step (hr : Reading hash equals mem key phase m)
    (h : Sees hash equals mem stored shown old) (hknown : (lastPut equals stored key).isSome) :
    ∃ phase', getStep hash equals mem key phase = some phase' ∧
      ∃ m', m = m' + 1 ∧ (Reading hash equals mem key phase' m' ∨
        ∃ v, phase' = .returned v ∧ lastPut equals shown key = some v) := by
  obtain ⟨d, hd, hat⟩ := hr
  obtain ⟨d', hold, hd'⟩ := h.finds hknown
  obtain rfl := hd.unique hd'
  obtain ⟨phase', hget, m', rfl, hat' | rfl⟩ := getStep_at h.live hd hat
  · exact ⟨phase', hget, m', rfl, Or.inl ⟨d, hd, hat'⟩⟩
  · exact ⟨_, hget, m', rfl, Or.inr ⟨_, rfl, h.value hold⟩⟩

theorem Reading.reads (hr : Reading hash equals mem key phase m) (since : List (K × V)) :
    (MapTask.get key since phase).reads = true := by
  obtain ⟨d, -, hat⟩ := hr
  cases phase with
  | begun | indexed | probing | occupied | missed | found | result | value => rfl
  | returned => exact hat.elim

omit [Inhabited K] in
theorem reads_of_getStep {phase' : GetPhase V}
    (hget : getStep hash equals mem key phase = some phase') (since : List (K × V)) :
    (MapTask.get key since phase).reads = true := by
  cases phase with
  | begun | indexed | probing | occupied | missed | found | result | value => rfl
  | returned => cases hget

end Reading

section Ok

variable {s s' : MapThreads K V} {e : MapEvent K V} {i : Nat} {key : K} {since : List (K × V)}
  {phase : GetPhase V} {left : List (MapWrite K V)} {expands : Bool} {m : Nat}

omit [Inhabited K] [Inhabited V] in
theorem shown_of_owner (howner : s.owner = some (i, expands))
    (htask : s.tasks[i]? = some (.put left)) :
    s.shown = if left.any MapWrite.isValue then s.puts.tail else s.puts := by
  unfold MapThreads.shown MapThreads.storing
  rw [howner, Option.any_some, htask, Option.any_some]
  rfl

theorem MapThreads.Ok.owner (h : s.Ok hash equals) (htask : s.tasks[i]? = some (.put left)) :
    ∃ expands, s.owner = some (i, expands) := by
  obtain ⟨⟨j, expands⟩, howner, rfl⟩ := Option.map_eq_some_iff.mp (h.only htask)
  exact ⟨expands, howner⟩

/-- While a thread is in a lookup, none expands the table. -/
theorem MapThreads.Ok.not_expands (h : s.Ok hash equals) {task : MapTask K V}
    (htask : s.tasks[i]? = some task) (hreads : task.reads = true) :
    s.owner.map Prod.snd ≠ some true := by
  intro hexpands
  rw [h.calm hexpands htask] at hreads
  cases hreads

/-- What a lookup sees, while no thread expands the table. -/
theorem MapThreads.Ok.sees (h : s.Ok hash equals) (hexpands : s.owner.map Prod.snd ≠ some true) :
    ∃ old, Sees hash equals s.mem s.stored s.shown old := by
  cases howner : s.owner with
  | none =>
    have hsees := (h.quiet howner).sees
    refine ⟨s.mem.table hash equals, ?_⟩
    rw [MapThreads.shown_of_unowned howner, MapThreads.stored, howner]
    exact hsees
  | some holder =>
    obtain ⟨i, expands⟩ := holder
    rw [howner, Option.map_some, ne_eq, Option.some.injEq, Bool.not_eq_true] at hexpands
    obtain ⟨left, htask, -, hstore⟩ := h.writer howner
    obtain ⟨key, data, stored, old, hputs, hpartway⟩ := hstore hexpands
    refine ⟨old.map, ?_⟩
    rw [shown_of_owner howner htask, MapThreads.stored, howner, hputs]
    exact hpartway.sees

/-- No step disturbs a lookup of a key that is in the table. -/
theorem MapThreads.Ok.reading (h : s.Ok hash equals) (hmove : MapMoves hash equals s e s')
    (hexpands : s.owner.map Prod.snd ≠ some true) (hknown : (lastPut equals s.stored key).isSome)
    (hr : Reading hash equals s.mem key phase m) : Reading hash equals s'.mem key phase m := by
  cases hmove with
  | put | get | read | release => exact hr
  | write htask hwrite =>
    obtain ⟨expands, howner⟩ := h.owner htask
    rw [howner, Option.map_some, ne_eq, Option.some.injEq, Bool.not_eq_true] at hexpands
    obtain ⟨left, htask', -, hstore⟩ := h.writer howner
    cases htask.symm.trans htask'
    obtain ⟨key', data, stored, old, hputs, hpartway⟩ := hstore hexpands
    obtain ⟨hpartway', harray⟩ := hpartway.write hwrite
    have hstored : s.stored = stored := by
      rw [MapThreads.stored, howner, hputs]
      rfl
    exact hr.stays hpartway.sees hpartway'.sees harray (hstored ▸ hknown)

/-- A lookup while other threads move. -/
theorem MapThreads.Ok.getOk (h : s.Ok hash equals) (hmove : MapMoves hash equals s e s')
    (htask : s.tasks[i]? = some (.get key since phase)) :
    GetOk hash equals s' key since phase := by
  rcases h.gets htask with ⟨v, past, hphase, hsince, hpast, hv⟩ | ⟨hsince, hknown, m, hr⟩
  · exact Or.inl ⟨v, past, hphase, hsince, hpast.trans hmove.shown_grows, hv⟩
  · have hexpands := h.not_expands htask (hr.reads since)
    exact Or.inr ⟨hsince.trans hmove.shown_grows,
      lastPut_isSome_of_suffix hmove.stored_grows hknown, m, h.reading hmove hexpands hknown hr⟩

/-! ## The steps -/

theorem MapThreads.Ok.put (h : s.Ok hash equals) {data : V} {task : MapTask K V}
    {script : MapScript K V} (howner : s.owner = none) (htask : s.tasks[i]? = some task)
    (hfree : task.free = true)
    (hput : putScriptN 2 (s.mem.script hash equals) key data = some script)
    (hguard : MapGuard hash equals s (.put i key data)) :
    MapThreads.Ok hash equals
      { s with
        owner := some (i, hashmapLoadFactor (s.mem.table hash equals) > 70)
        puts := (key, data) :: s.puts
        tasks := s.tasks.set i (.put script.writes) } := by
  have hmove := MapMoves.put howner htask hfree hput
  have hholds := h.quiet howner
  refine ⟨fun hnone => ?_, ?_, ?_, ?_, ?_⟩
  · cases hnone
  · intro j expands hj
    obtain ⟨rfl, rfl⟩ := Prod.mk.inj (Option.some.inj hj)
    refine ⟨script.writes, (getElem?_moved htask).mpr (by rw [if_pos rfl]), ?_, fun hroom => ?_⟩
    · obtain ⟨script', mem, hput', hwrites, hholds'⟩ := hholds.put key data
      obtain rfl := Option.some.inj (hput'.symm.trans hput)
      exact ⟨mem, hwrites, hholds'⟩
    · obtain ⟨index, hindex, hwrites⟩ := putScriptN_of_room (of_decide_eq_false hroom) hput
      exact ⟨key, data, s.puts, _, rfl, hwrites ▸ hholds.partway hindex⟩
  · intro j left hj
    rw [getElem?_moved htask] at hj
    split at hj
    · rename_i heq
      rw [heq]
      rfl
    · have howned := h.only hj
      rw [howner] at howned
      cases howned
  · intro hexpands j task' hj
    rw [getElem?_moved htask] at hj
    split at hj
    · rw [hj]
      rfl
    · exact hguard (of_decide_eq_true (Option.some.inj hexpands)) task' (List.mem_of_getElem? hj)
  · intro j key' since phase hj
    rw [getElem?_moved htask] at hj
    split at hj
    · cases hj
    · exact h.getOk hmove hj

theorem MapThreads.Ok.get (h : s.Ok hash equals) {task : MapTask K V}
    (htask : s.tasks[i]? = some task) (hfree : task.free = true)
    (hguard : MapGuard hash equals s (.get i key)) :
    MapThreads.Ok hash equals { s with tasks := s.tasks.set i (.get key s.shown .begun) } := by
  obtain ⟨hexpands, hknown⟩ := hguard
  have hmove : MapMoves hash equals s (.get i key) _ := .get htask hfree
  refine ⟨h.quiet, ?_, ?_, fun hexpands' => absurd hexpands' hexpands, ?_⟩
  · intro j expands hj
    obtain ⟨left, hput, hrest⟩ := h.writer hj
    have hne : j ≠ i := by
      rintro rfl
      cases htask.symm.trans hput
      cases hfree
    exact ⟨left, (getElem?_moved htask).mpr (by rw [if_neg hne]; exact hput), hrest⟩
  · intro j left hj
    rw [getElem?_moved htask] at hj
    split at hj
    · cases hj
    · exact h.only hj
  · intro j key' since phase hj
    rw [getElem?_moved htask] at hj
    split at hj
    · cases hj
      obtain ⟨old, hsees⟩ := h.sees hexpands
      obtain ⟨d, -, hd⟩ := hsees.finds hknown
      exact Or.inr ⟨hmove.shown_grows, hknown, _, d, hd, rfl⟩
    · exact h.getOk hmove hj

theorem MapThreads.Ok.read (h : s.Ok hash equals) {phase' : GetPhase V}
    (htask : s.tasks[i]? = some (.get key since phase))
    (hget : getStep hash equals s.mem key phase = some phase') :
    MapThreads.Ok hash equals { s with tasks := s.tasks.set i (.get key since phase') } := by
  have hexpands := h.not_expands htask (reads_of_getStep hget since)
  have hmove := MapMoves.read htask hget
  refine ⟨h.quiet, ?_, ?_, fun hexpands' => absurd hexpands' hexpands, ?_⟩
  · intro j expands hj
    obtain ⟨left, hput, hrest⟩ := h.writer hj
    have hne : j ≠ i := by
      rintro rfl
      cases htask.symm.trans hput
    exact ⟨left, (getElem?_moved htask).mpr (by rw [if_neg hne]; exact hput), hrest⟩
  · intro j left hj
    rw [getElem?_moved htask] at hj
    split at hj
    · cases hj
    · exact h.only hj
  · intro j key' since' phase'' hj
    rw [getElem?_moved htask] at hj
    split at hj
    · cases hj
      obtain ⟨old, hsees⟩ := h.sees hexpands
      rcases h.gets htask with ⟨v, past, rfl, -⟩ | ⟨hsince, hknown, m, hr⟩
      · cases hget
      · obtain ⟨next, hnext, m', -, hstep⟩ := hr.step hsees hknown
        obtain rfl := Option.some.inj (hnext.symm.trans hget)
        rcases hstep with hr' | ⟨v, rfl, hv⟩
        · exact Or.inr ⟨hsince.trans hmove.shown_grows, hknown, m', hr'⟩
        · exact Or.inl ⟨v, s.shown, rfl, hsince, hmove.shown_grows, hv⟩
    · exact h.getOk hmove hj

theorem MapThreads.Ok.release (h : s.Ok hash equals) (htask : s.tasks[i]? = some (.put [])) :
    MapThreads.Ok hash equals { s with owner := none, tasks := s.tasks.set i .idle } := by
  have hmove : MapMoves hash equals s (.step i) _ := .release htask
  obtain ⟨expands, howner⟩ := h.owner htask
  refine ⟨fun _ => ?_, fun {j expands} hj => ?_, ?_, fun hexpands => ?_, ?_⟩
  · obtain ⟨left, hput, ⟨mem, hwrites, hholds⟩, -⟩ := h.writer howner
    cases htask.symm.trans hput
    obtain rfl := Option.some.inj hwrites
    exact hholds
  · cases hj
  · intro j left hj
    rw [getElem?_moved htask] at hj
    split at hj
    · cases hj
    · rename_i hne
      have hj' := h.only hj
      rw [howner] at hj'
      exact absurd (Option.some.inj hj').symm hne
  · cases hexpands
  · intro j key since phase hj
    rw [getElem?_moved htask] at hj
    split at hj
    · cases hj
    · exact h.getOk hmove hj

theorem MapThreads.Ok.write (h : s.Ok hash equals) {w : MapWrite K V} {mem : MapMemory K V}
    (htask : s.tasks[i]? = some (.put (w :: left))) (hwrite : s.mem.write w = some mem) :
    MapThreads.Ok hash equals { s with mem, tasks := s.tasks.set i (.put left) } := by
  have hmove : MapMoves hash equals s (.step i) _ := .write htask hwrite
  obtain ⟨expands, howner⟩ := h.owner htask
  refine ⟨fun hnone => ?_, ?_, ?_, ?_, ?_⟩
  · cases howner.symm.trans hnone
  · intro j expands' hj
    obtain ⟨rfl, rfl⟩ := Prod.mk.inj (Option.some.inj (howner.symm.trans hj))
    obtain ⟨left', hput, ⟨mem', hwrites, hholds⟩, hstore⟩ := h.writer howner
    cases htask.symm.trans hput
    rw [MapMemory.writes_cons, hwrite] at hwrites
    refine ⟨left, (getElem?_moved htask).mpr (by rw [if_pos rfl]), ⟨mem', hwrites, hholds⟩,
      fun hexpands => ?_⟩
    obtain ⟨key, data, stored, old, hputs, hpartway⟩ := hstore hexpands
    exact ⟨key, data, stored, old, hputs, (hpartway.write hwrite).1⟩
  · intro j left' hj
    rw [getElem?_moved htask] at hj
    split at hj
    · rename_i heq
      rw [heq]
      exact congrArg (Option.map Prod.fst) howner
    · exact h.only hj
  · intro hexpands j task hj
    rw [getElem?_moved htask] at hj
    split at hj
    · rw [hj]
      rfl
    · exact h.calm hexpands hj
  · intro j key since phase hj
    rw [getElem?_moved htask] at hj
    split at hj
    · cases hj
    · exact h.getOk hmove hj

theorem mapThreadsStep_ok (h : s.Ok hash equals) (hguard : MapGuard hash equals s e)
    (hstep : mapThreadsStep hash equals s e = some s') : s'.Ok hash equals := by
  cases mapThreadsStep_moves hash equals hstep with
  | put howner htask hfree hput => exact h.put howner htask hfree hput hguard
  | get htask hfree => exact h.get htask hfree hguard
  | read htask hget => exact h.read htask hget
  | release htask => exact h.release htask
  | write htask hwrite => exact h.write htask hwrite

end Ok

/-! ## Whole runs -/

/-- Thread `i` is in a lookup with at most `m` reads left. -/
def MapThreads.Within (hash : K → UInt64) (equals : K → K → Bool) (s : MapThreads K V) (i m : Nat) :
    Prop :=
  ∃ key since phase, s.tasks[i]? = some (.get key since phase) ∧
    ((∃ v, phase = .returned v) ∨
      (lastPut equals s.stored key).isSome ∧ Reading hash equals s.mem key phase m)

/-- What the threads can rely on. -/
structure MapThreads.Served (hash : K → UInt64) (equals : K → K → Bool) (s : MapThreads K V) :
    Prop where
  /-- A call of `hashmap_put` takes effect between its begin and its end, once and for all. -/
  effect : s.stored <:+ s.shown ∧ s.shown <:+ s.puts
  grows : ∀ e s', mapThreadsStep hash equals s e = some s' → s.shown <:+ s'.shown
  /-- A thread in a call can take its next step: no access goes wrong. -/
  runs : ∀ i task, s.tasks[i]? = some task → task.free = false →
    ∃ s', mapThreadsStep hash equals s (.step i) = some s'
  /-- A lookup gives the value of the calls that had taken effect at some time while it ran. -/
  returned : ∀ (i : Nat) key since v, s.tasks[i]? = some (.get key since (.returned v)) →
    ∃ past, since <:+ past ∧ past <:+ s.shown ∧ lastPut equals past key = some v
  /-- It returns after a bounded number of its own steps, whatever the other threads do. -/
  bounded : ∀ i task, s.tasks[i]? = some task → task.reads = true → ∀ es s',
    Guarded (mapThreadsStep hash equals) (MapGuard hash equals) s es →
    run (mapThreadsStep hash equals) s es = some s' → (∀ e ∈ es, e.begins i = false) →
    es.countP (MapEvent.isStep i) ≤ 4 * s.mem.capacity + 3

section Runs

variable {s s' : MapThreads K V} {e : MapEvent K V} {i m : Nat}

/-- A step of the lookup is one of its reads; other steps leave it alone. -/
theorem MapThreads.Ok.within (h : s.Ok hash equals) (hw : s.Within hash equals i m)
    (hbegins : e.begins i = false) (hstep : mapThreadsStep hash equals s e = some s') :
    ∃ m', s'.Within hash equals i m' ∧ m' + (if e.isStep i then 1 else 0) ≤ m := by
  obtain ⟨key, since, phase, htask, hphase⟩ := hw
  have hmove := mapThreadsStep_moves hash equals hstep
  by_cases hi : e.thread = i
  · subst hi
    cases hmove with
    | put | get => exact absurd hbegins (by simp [MapEvent.begins, MapEvent.thread])
    | release htask' | write htask' => cases htask.symm.trans htask'
    | read htask' hget =>
      cases htask.symm.trans htask'
      rcases hphase with ⟨v, rfl⟩ | ⟨hknown, hr⟩
      · cases hget
      · obtain ⟨old, hsees⟩ := h.sees (h.not_expands htask (hr.reads since))
        obtain ⟨next, hnext, m', rfl, hrest⟩ := hr.step hsees hknown
        obtain rfl := Option.some.inj (hnext.symm.trans hget)
        refine ⟨m', ⟨key, since, next, ?_, ?_⟩, by simp [MapEvent.isStep, MapEvent.thread]⟩
        · exact (getElem?_moved htask).mpr (by rw [if_pos rfl])
        · exact hrest.symm.imp (fun hdone => hdone.imp fun _ => And.left) fun hr' => ⟨hknown, hr'⟩
  · refine ⟨m, ⟨key, since, phase, (hmove.others hi).trans htask, ?_⟩, ?_⟩
    · refine hphase.imp_right fun hreading => ?_
      obtain ⟨hknown, hr⟩ := hreading
      exact ⟨lastPut_isSome_of_suffix hmove.stored_grows hknown,
        h.reading hmove (h.not_expands htask (hr.reads since)) hknown hr⟩
    · cases e with
      | put | get => exact Nat.le_refl m
      | step j =>
        have hj : (j == i) = false := beq_eq_false_iff_ne.mpr hi
        rw [MapEvent.isStep, hj]
        exact Nat.le_refl m

theorem MapThreads.Ok.bounded (h : s.Ok hash equals) (hw : s.Within hash equals i m)
    {es : List (MapEvent K V)}
    (hg : Guarded (mapThreadsStep hash equals) (MapGuard hash equals) s es)
    (hrun : run (mapThreadsStep hash equals) s es = some s')
    (hbegins : ∀ e ∈ es, e.begins i = false) : es.countP (MapEvent.isStep i) ≤ m := by
  induction es generalizing s m with
  | nil => exact Nat.zero_le m
  | cons e es ih =>
    obtain ⟨s₁, hs₁, hrest⟩ := Option.bind_eq_some_iff.mp hrun
    obtain ⟨hge, hg₁⟩ := hg s₁ hs₁
    obtain ⟨m', hw', hm'⟩ := h.within hw (hbegins e List.mem_cons_self) hs₁
    have hle := ih (mapThreadsStep_ok h hge hs₁) hw' hg₁ hrest fun e' he' =>
      hbegins e' (List.mem_cons_of_mem _ he')
    rw [List.countP_cons]
    omega

theorem MapThreads.Ok.runs (h : s.Ok hash equals) {task : MapTask K V}
    (htask : s.tasks[i]? = some task) (hbusy : task.free = false) :
    ∃ s', mapThreadsStep hash equals s (.step i) = some s' := by
  rw [mapThreadsStep, htask, Option.bind_some]
  cases task with
  | idle => cases hbusy
  | get key since phase =>
    rcases h.gets htask with ⟨v, past, rfl, -⟩ | ⟨hsince, hknown, m, hr⟩
    · cases hbusy
    · obtain ⟨old, hsees⟩ := h.sees (h.not_expands htask (hr.reads since))
      obtain ⟨phase', hget, -⟩ := hr.step hsees hknown
      rw [mapTaskStep, hget]
      exact ⟨_, rfl⟩
  | put left =>
    obtain ⟨expands, howner⟩ := h.owner htask
    obtain ⟨left', hput, ⟨mem', hwrites, -⟩, -⟩ := h.writer howner
    cases htask.symm.trans hput
    cases left with
    | nil => exact ⟨_, rfl⟩
    | cons w left =>
      rw [MapMemory.writes_cons] at hwrites
      obtain ⟨mem, hwrite, -⟩ := Option.bind_eq_some_iff.mp hwrites
      rw [mapTaskStep, hwrite]
      exact ⟨_, rfl⟩

theorem MapThreads.Ok.served (h : s.Ok hash equals) : s.Served hash equals := by
  refine ⟨⟨s.stored_suffix_shown, s.shown_suffix_puts⟩, fun e s' hstep => ?_,
    fun i task htask hbusy => h.runs htask hbusy, fun i key since v htask => ?_,
    fun i task htask hreads es s' hg hrun hbegins => ?_⟩
  · exact (mapThreadsStep_moves hash equals hstep).shown_grows
  · rcases h.gets htask with ⟨v', past, heq, hsince, hpast, hv⟩ | ⟨-, -, m, hr⟩
    · cases heq
      exact ⟨past, hsince, hpast, hv⟩
    · cases hr.reads since
  · cases task with
    | idle | put => cases hreads
    | get key since phase =>
      rcases h.gets htask with ⟨v, past, rfl, -⟩ | ⟨-, hknown, m, d, hd, hat⟩
      · cases hreads
      · have hle := hat.le
        have hlt : d < s.mem.capacity := hd.lt
        have hcount := h.bounded ⟨key, since, phase, htask, Or.inr ⟨hknown, d, hd, hat⟩⟩ hg hrun
          hbegins
        omega

theorem start_ok (hl : Lawful hash equals) {initialSize : Int} {map₀ : Hashmap K V}
    (h₀ : hashmapAlloc initialSize hash equals = some map₀) (n : Nat) :
    (MapThreads.start map₀ n).Ok hash equals := by
  obtain ⟨hs₀, hhash, hequals, hlookup⟩ := hashmapAlloc_sound hl h₀
  have hidle : ∀ {i : Nat} {task}, (MapThreads.start map₀ n).tasks[i]? = some task →
      task = .idle := by
    intro i task htask
    exact List.eq_of_mem_replicate (List.mem_of_getElem? htask)
  have hshows : map₀.memory.Shows { map := map₀, array := 0, next := 1, writes := [] } :=
    ⟨rfl, rfl, rfl, rfl, rfl⟩
  refine ⟨fun _ => hshows.holds hhash hequals hs₀ hlookup, fun {i expands} howner => ?_,
    fun {i left} htask => ?_, fun hexpands => ?_, fun {i key since phase} htask => ?_⟩
  · cases howner
  · cases hidle htask
  · cases hexpands
  · cases hidle htask

/-- **Lookups without the lock**: any number of threads look keys up and put keys, in any order of
their reads and writes. As long as no expansion overlaps with a lookup, and a lookup is for a key
that is in the table, each call acts as if it took effect all at once while it ran, no access goes
wrong, and no lookup waits for another thread. -/
theorem hashmap_get_unlocked (hl : Lawful hash equals) {initialSize : Int} {map₀ : Hashmap K V}
    (h₀ : hashmapAlloc initialSize hash equals = some map₀) (n : Nat) (es : List (MapEvent K V))
    (hg : Guarded (mapThreadsStep hash equals) (MapGuard hash equals) (MapThreads.start map₀ n)
      es) :
    Along (mapThreadsStep hash equals) (MapThreads.Served hash equals) (MapThreads.start map₀ n)
      es :=
  along_of_guarded (fun _ h => h.served) (fun _ _ _ h hge hs => mapThreadsStep_ok h hge hs)
    (start_ok hl h₀ n) hg

end Runs

/-- Thread `1` gives `2` another value while thread `0` looks it up, and still holds the lock. -/
def overlapRun : List (MapEvent Nat Nat) :=
  putAlone 1 4 ++ putAlone 2 4 ++ .get 0 2 :: List.replicate 6 (.step 0) ++
    [.put 1 2 30, .step 1] ++ List.replicate 5 (.step 0)

theorem hashmap_get_unlocked_overlap :
    ∃ s, run (mapThreadsStep (fun _ => 7) fun a b => a == b)
        (.start ⟨callocElements 16, 16, 0, fun _ => 7, fun a b => a == b⟩ 2) overlapRun = some s ∧
      s.tasks[0]? = some (.get 2 [(2, 20), (1, 10)] (.returned 30)) ∧ s.owner = some (1, false) ∧
      Along (mapThreadsStep (fun _ => 7) fun a b => a == b)
        (MapThreads.Served (fun _ => 7) fun a b => a == b)
        (.start ⟨callocElements 16, 16, 0, fun _ => 7, fun a b => a == b⟩ 2) overlapRun := by
  have hview : (run (mapThreadsStep (fun _ => 7) fun a b => a == b)
      (.start ⟨callocElements 16, 16, 0, fun _ => 7, fun a b => a == b⟩ 2) overlapRun).map
      (fun s => (s.tasks[0]?, s.owner)) =
      some (some (.get 2 [(2, 20), (1, 10)] (.returned 30)), some (1, false)) := by
    decide +kernel
  obtain ⟨s, hrun, hs⟩ := Option.map_eq_some_iff.mp hview
  obtain ⟨htask, howner⟩ := Prod.mk.inj hs
  exact ⟨s, hrun, htask, howner,
    @hashmap_get_unlocked Nat Nat _ _ _ _ lawful_nat_collide 3 _ rfl 2 _ (by decide +kernel)⟩

end TcpIp
