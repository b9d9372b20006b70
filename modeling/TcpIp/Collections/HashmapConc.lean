import TcpIp.Collections.HashmapWrites
import TcpIp.Lib.Trace

/-!
# Lookups without the lock

`set_in_arp_cache` and `arp_resolve_ipv4` call `hashmap_get` without `cache_mutex`, while other
threads are in `hashmap_put` under it. Here a lookup is one read of memory a step, and a
`hashmap_put` one write a step (`HashmapWrites`). The steps of the threads happen one after another,
in any order.

* `getStep`: the reads of `hashmap_get`. `map->capacity` and `map->array` are read again for each
  slot, and `map->array` once more for the result.
* `mapThreadsStep`: any number of threads in `hashmap_get` and `hashmap_put`.
* `MapThreads.shown`: the puts that have taken effect. A `hashmap_put` does so with its write of the
  value.
* `hashmap_get_overtaken`: a lookup can return the value of another key, when its own one is not in
  the table, or when another thread expands the table meanwhile. `MapGuard` excludes both.
* `Hashmap.Finds`: where the probe for a key ends. `Hashmap.Keeps`: a table that still has the keys
  of another one, so that the probe ends there too.
-/

namespace TcpIp

open OpenAddressing Blocks

/-! ## The threads -/

/-- How far a `hashmap_get` has come. -/
inductive GetPhase (V : Type) where
  | begun
  | indexed (i : Nat)
  | probing (a i : Nat)
  /-- The slot is used. -/
  | occupied (a i : Nat)
  /-- Its key is another one. -/
  | missed (i : Nat)
  /-- The probe has ended. -/
  | found (i : Nat)
  | result (a i : Nat)
  | value (a i : Nat)
  | returned (data : V)
deriving Repr, DecidableEq

inductive MapTask (K V : Type) where
  | idle
  /-- A lookup, and the calls of `hashmap_put` that had taken effect when it began. -/
  | get (key : K) (since : List (K × V)) (phase : GetPhase V)
  /-- A `hashmap_put` that holds the lock, and the writes it has left. -/
  | put (left : List (MapWrite K V))
deriving Repr, DecidableEq

/-- The thread can begin another call. -/
def MapTask.free {K V : Type} : MapTask K V → Bool
  | idle | get _ _ (.returned _) => true
  | get .. | put _ => false

def MapWrite.isValue {K V : Type} : MapWrite K V → Bool
  | value .. => true
  | calloc _ | array _ | size _ | capacity _ | key .. | used .. | free _ => false

/-- The write of the value is still to come. -/
def MapTask.storing {K V : Type} : MapTask K V → Bool
  | put left => left.any MapWrite.isValue
  | idle | get .. => false

/-- What a lookup has returned. -/
def MapTask.data {K V : Type} : MapTask K V → Option V
  | get _ _ (.returned data) => some data
  | get .. | idle | put _ => none

/-- The thread is in a lookup. -/
def MapTask.reads {K V : Type} : MapTask K V → Bool
  | get _ _ (.returned _) | idle | put _ => false
  | get .. => true

structure MapThreads (K V : Type) where
  mem : MapMemory K V
  /-- The thread that holds the lock, and whether its call expands the table. -/
  owner : Option (Nat × Bool)
  /-- The calls of `hashmap_put`, the last one first. -/
  puts : List (K × V)
  tasks : List (MapTask K V)

inductive MapEvent (K V : Type) where
  | put (i : Nat) (key : K) (data : V)
  | get (i : Nat) (key : K)
  | step (i : Nat)

/-- The event begins a call of thread `i`. -/
def MapEvent.begins {K V : Type} (i : Nat) : MapEvent K V → Bool
  | put j _ _ | get j _ => j == i
  | step _ => false

def MapEvent.isStep {K V : Type} (i : Nat) : MapEvent K V → Bool
  | put .. | get .. => false
  | step j => j == i

variable {K V : Type} [Inhabited K] [Inhabited V]

def MapThreads.start (map : Hashmap K V) (n : Nat) : MapThreads K V :=
  { mem := map.memory, owner := none, puts := [], tasks := List.replicate n .idle }

/-- The calls of `hashmap_put` that have returned. -/
def MapThreads.stored (s : MapThreads K V) : List (K × V) :=
  if s.owner.isSome then s.puts.tail else s.puts

/-- The thread that holds the lock has its write of the value still to come. -/
def MapThreads.storing (s : MapThreads K V) : Bool :=
  s.owner.any fun holder => (s.tasks[holder.1]?).any MapTask.storing

/-- The calls of `hashmap_put` that have taken effect. -/
def MapThreads.shown (s : MapThreads K V) : List (K × V) :=
  if s.storing then s.puts.tail else s.puts

section Steps

variable (hash : K → UInt64) (equals : K → K → Bool)

/-- One read of `hashmap_get`; without a free slot it is a freed array, or one past its end. -/
def getStep (mem : MapMemory K V) (key : K) : GetPhase V → Option (GetPhase V)
  | .begun => some (.indexed ((hash key).toNat &&& (mem.capacity - 1)))
  | .indexed i => some (.probing mem.array i)
  | .probing a i =>
    (mem.heap.read a i).map fun el => if el.used then .occupied a i else .found i
  | .occupied a i =>
    (mem.heap.read a i).map fun el => if equals key el.key then .found i else .missed i
  | .missed i => some (.indexed ((i + 1) &&& (mem.capacity - 1)))
  | .found i => some (.result mem.array i)
  | .result a i =>
    (mem.heap.read a i).map fun el => if el.used then .value a i else .returned default
  | .value a i => (mem.heap.read a i).map fun el => .returned el.value
  | .returned _ => none

/-- The next step of thread `i`; a `hashmap_put` without writes left gives the lock back. -/
def mapTaskStep (s : MapThreads K V) (i : Nat) : MapTask K V → Option (MapThreads K V)
  | .idle => none
  | .get key since phase =>
    (getStep hash equals s.mem key phase).map fun phase =>
      { s with tasks := s.tasks.set i (.get key since phase) }
  | .put [] => some { s with owner := none, tasks := s.tasks.set i .idle }
  | .put (w :: left) =>
    (s.mem.write w).map fun mem => { s with mem, tasks := s.tasks.set i (.put left) }

def mapThreadsStep (s : MapThreads K V) : MapEvent K V → Option (MapThreads K V)
  | .put i key data =>
    if s.owner.isSome ∨ (s.tasks[i]?).any MapTask.free = false then none
    else (putScriptN 2 (s.mem.script hash equals) key data).map fun script =>
      { s with
        owner := some (i, hashmapLoadFactor (s.mem.table hash equals) > 70)
        puts := (key, data) :: s.puts
        tasks := s.tasks.set i (.put script.writes) }
  | .get i key =>
    if (s.tasks[i]?).any MapTask.free then
      some { s with tasks := s.tasks.set i (.get key s.shown .begun) }
    else none
  | .step i => (s.tasks[i]?).bind (mapTaskStep hash equals s i)

/-- The value that the calls `l` of `hashmap_put` leave for a key. -/
def lastPut (l : List (K × V)) (key : K) : Option V :=
  (l.find? fun entry => equals key entry.1).map Prod.snd

/-- A step of `mapThreadsStep`. -/
inductive MapMoves (s : MapThreads K V) : MapEvent K V → MapThreads K V → Prop where
  | put {i key data task script} (howner : s.owner = none) (htask : s.tasks[i]? = some task)
      (hfree : task.free = true)
      (hput : putScriptN 2 (s.mem.script hash equals) key data = some script) :
      MapMoves s (.put i key data)
        { s with
          owner := some (i, hashmapLoadFactor (s.mem.table hash equals) > 70)
          puts := (key, data) :: s.puts
          tasks := s.tasks.set i (.put script.writes) }
  | get {i key task} (htask : s.tasks[i]? = some task) (hfree : task.free = true) :
      MapMoves s (.get i key) { s with tasks := s.tasks.set i (.get key s.shown .begun) }
  | read {i key since phase phase'} (htask : s.tasks[i]? = some (.get key since phase))
      (hget : getStep hash equals s.mem key phase = some phase') :
      MapMoves s (.step i) { s with tasks := s.tasks.set i (.get key since phase') }
  | release {i} (htask : s.tasks[i]? = some (.put [])) :
      MapMoves s (.step i) { s with owner := none, tasks := s.tasks.set i .idle }
  | write {i w left mem} (htask : s.tasks[i]? = some (.put (w :: left)))
      (hwrite : s.mem.write w = some mem) :
      MapMoves s (.step i) { s with mem, tasks := s.tasks.set i (.put left) }

/-- All that a step can do. -/
theorem mapThreadsStep_moves {s s' : MapThreads K V} {e : MapEvent K V}
    (h : mapThreadsStep hash equals s e = some s') : MapMoves hash equals s e s' := by
  cases e with
  | put i key data =>
    rw [mapThreadsStep] at h
    split at h
    · cases h
    · rename_i hgo
      rw [not_or, Option.not_isSome_iff_eq_none, Bool.not_eq_false, Option.any_eq_true] at hgo
      obtain ⟨howner, task, htask, hfree⟩ := hgo
      obtain ⟨script, hput, rfl⟩ := Option.map_eq_some_iff.mp h
      exact .put howner htask hfree hput
  | get i key =>
    rw [mapThreadsStep] at h
    split at h
    · rename_i hgo
      obtain ⟨task, htask, hfree⟩ := (Option.any_eq_true _ _).mp hgo
      obtain rfl := Option.some.inj h
      exact .get htask hfree
    · cases h
  | step i =>
    obtain ⟨task, htask, h⟩ := Option.bind_eq_some_iff.mp h
    cases task with
    | idle => cases h
    | get key since phase =>
      obtain ⟨phase', hget, rfl⟩ := Option.map_eq_some_iff.mp h
      exact .read htask hget
    | put left =>
      cases left with
      | nil =>
        obtain rfl := Option.some.inj h
        exact .release htask
      | cons w left =>
        obtain ⟨mem, hwrite, rfl⟩ := Option.map_eq_some_iff.mp h
        exact .write htask hwrite

/-- No expansion overlaps with a lookup, and the key of a lookup is in the table. -/
def MapGuard (s : MapThreads K V) : MapEvent K V → Prop
  | .put .. =>
    hashmapLoadFactor (s.mem.table hash equals) > 70 → ∀ task ∈ s.tasks, task.reads = false
  | .get _ key => s.owner.map Prod.snd ≠ some true ∧ (lastPut equals s.stored key).isSome
  | .step _ => True

instance decidableMapGuard (s : MapThreads K V) :
    (e : MapEvent K V) → Decidable (MapGuard hash equals s e)
  | .put .. => inferInstanceAs (Decidable (_ → _))
  | .get .. => inferInstanceAs (Decidable (_ ∧ _))
  | .step _ => isTrue trivial

end Steps

/-! ## Without the guard -/

/-- Thread `1` puts a key that has a slot of its own, with its `writes` writes. -/
def putAlone (key writes : Nat) : List (MapEvent Nat Nat) :=
  .put 1 key (10 * key) :: List.replicate (writes + 1) (.step 1)

/-- The lookup of `5` ends at a free slot, where thread `1` then puts `6`. -/
def absentRun : List (MapEvent Nat Nat) :=
  .get 0 5 :: List.replicate 3 (.step 0) ++ putAlone 6 4 ++ List.replicate 3 (.step 0)

/-- The lookup of `17` makes `before` steps, then thread `1` expands the table. -/
def expandedRun (before after : Nat) : List (MapEvent Nat Nat) :=
  [1, 17, 2, 4, 5, 6, 7, 8, 9, 10, 11, 12].flatMap (putAlone · 4) ++
    .get 0 17 :: List.replicate before (.step 0) ++ putAlone 99 57 ++ List.replicate after (.step 0)

/-- A lookup without the lock can give the value of another key: of one that is not in the table, or
while another thread expands the table, where it can also read the array that was freed. -/
theorem hashmap_get_overtaken :
    ((Trace.run (mapThreadsStep (fun _ => 7) fun a b => a == b)
        (.start ⟨callocElements 16, 16, 0, fun _ => 7, fun a b => a == b⟩ 2) absentRun).map
      fun s => (s.tasks[0]?.bind MapTask.data, s.puts)) = some (some 60, [(6, 60)]) ∧
    ((Trace.run (mapThreadsStep UInt64.ofNat fun a b => a == b)
        (.start ⟨callocElements 16, 16, 0, UInt64.ofNat, fun a b => a == b⟩ 2)
        (expandedRun 8 3)).map
      fun s => (s.tasks[0]?.bind MapTask.data, lastPut (fun a b => a == b) s.puts 17)) =
        some (some 20, some 170) ∧
    ((Trace.run (mapThreadsStep UInt64.ofNat fun a b => a == b)
        (.start ⟨callocElements 16, 16, 0, UInt64.ofNat, fun a b => a == b⟩ 2)
        (expandedRun 2 0)).map
      fun s => (mapThreadsStep UInt64.ofNat (fun a b => a == b) s (.step 0)).isNone) =
        some true := by
  refine ⟨?_, ?_, ?_⟩
  · decide +kernel
  · decide +kernel
  · decide +kernel

/-! ## The way to a key -/

/-- The slot at distance `e` from the home of a key. -/
def Hashmap.probe (map : Hashmap K V) (key : K) (e : Nat) : Nat := (map.home key + e) % map.capacity

/-- The probe for `key` ends at distance `d`, at an equal key. -/
structure Hashmap.Finds (map : Hashmap K V) (key : K) (d : Nat) : Prop where
  lt : d < map.capacity
  used : ∀ e, e ≤ d → (map.slot (map.probe key e)).used = true
  before : ∀ e, e < d → map.equals key (map.slot (map.probe key e)).key = false
  equal : map.equals key (map.slot (map.probe key d)).key = true

/-- What was in the table is still there. -/
structure Hashmap.Keeps (map map' : Hashmap K V) : Prop where
  hash : map'.hash = map.hash
  equals : map'.equals = map.equals
  capacity : map'.capacity = map.capacity
  slot : ∀ i, (map.slot i).used = true →
    (map'.slot i).used = true ∧ (map'.slot i).key = (map.slot i).key

section Finds

variable {map map' : Hashmap K V} {key : K} {d e : Nat}

theorem stops_eq_false {i : Nat} : stops map.equals map.occ key i = false ↔
    (map.slot i).used = true ∧ map.equals key (map.slot i).key = false := by
  unfold stops Hashmap.occ
  cases hu : (map.slot i).used <;> simp

theorem Hashmap.Sound.exists_finds (hs : map.Sound) (h : (map.lookup key).isSome) :
    ∃ d, map.Finds key d := by
  obtain ⟨v, hv⟩ := Option.isSome_iff_exists.mp h
  obtain ⟨i, hi, hu, he, -⟩ := hs.exists_of_lookup hv
  have hloc := (indexof_eq_locate hs.pow key).symm.trans (hs.indexof_of_used hi hu he)
  obtain ⟨d, hd, rfl, -, hbefore⟩ := scan_some (home_lt hs.capacity_pos key) hloc
  refine ⟨d, hd, fun e hed => ?_, fun e hed => (stops_eq_false.mp (hbefore e hed)).2, he⟩
  rcases Nat.lt_or_eq_of_le hed with hlt | rfl
  · exact (stops_eq_false.mp (hbefore e hlt)).1
  · exact hu

omit [Inhabited K] [Inhabited V] in
theorem Hashmap.probe_lt (hcap : 0 < map.capacity) : map.probe key e < map.capacity :=
  Nat.mod_lt _ hcap

theorem Hashmap.Finds.lookup (h : map.Finds key d) (hs : map.Sound) :
    map.lookup key = some (map.slot (map.probe key d)).value :=
  hs.lookup_of_used (Hashmap.probe_lt hs.capacity_pos) (h.used d (Nat.le_refl d)) h.equal

theorem Hashmap.Finds.unique (h : map.Finds key d) (h' : map.Finds key e) : d = e := by
  rcases Nat.lt_trichotomy d e with hlt | heq | hlt
  · exact absurd h.equal (by rw [h'.before d hlt]; exact Bool.false_ne_true)
  · exact heq
  · exact absurd h'.equal (by rw [h.before e hlt]; exact Bool.false_ne_true)

omit [Inhabited K] [Inhabited V] in
theorem probe_congr (hhash : map'.hash = map.hash) (hcap : map'.capacity = map.capacity) :
    map'.probe = map.probe := by
  funext key e
  rw [Hashmap.probe, Hashmap.probe, Hashmap.home, Hashmap.home, hhash, hcap]

theorem Hashmap.Keeps.refl (map : Hashmap K V) : map.Keeps map :=
  ⟨rfl, rfl, rfl, fun _ hu => ⟨hu, rfl⟩⟩

/-- A key is where it was. -/
theorem Hashmap.Finds.keeps (h : map.Finds key d) (hk : map.Keeps map') : map'.Finds key d := by
  have hslot : ∀ e, e ≤ d → (map'.slot (map'.probe key e)).used = true ∧
      (map'.slot (map'.probe key e)).key = (map.slot (map.probe key e)).key := by
    intro e he
    rw [probe_congr hk.hash hk.capacity]
    exact hk.slot _ (h.used e he)
  refine ⟨hk.capacity ▸ h.lt, fun e he => (hslot e he).1, fun e he => ?_, ?_⟩
  · rw [hk.equals, (hslot e (Nat.le_of_lt he)).2]
    exact h.before e he
  · rw [hk.equals, (hslot d (Nat.le_refl d)).2]
    exact h.equal

end Finds

/-! ## The reads of a lookup -/

/-- A lookup of a key at distance `d`, in the block `array`, has `m` reads left. -/
def GetPhase.At (map : Hashmap K V) (array : Nat) (key : K) (d : Nat) : GetPhase V → Nat → Prop
  | .begun, m => m = 4 * d + 7
  | .indexed i, m => ∃ e, e ≤ d ∧ i = map.probe key e ∧ m = 4 * (d - e) + 6
  | .probing a i, m => a = array ∧ ∃ e, e ≤ d ∧ i = map.probe key e ∧ m = 4 * (d - e) + 5
  | .occupied a i, m => a = array ∧ ∃ e, e ≤ d ∧ i = map.probe key e ∧ m = 4 * (d - e) + 4
  | .missed i, m => ∃ e, e < d ∧ i = map.probe key e ∧ m = 4 * (d - e) + 3
  | .found i, m => i = map.probe key d ∧ m = 3
  | .result a i, m => a = array ∧ i = map.probe key d ∧ m = 2
  | .value a i, m => a = array ∧ i = map.probe key d ∧ m = 1
  | .returned _, _ => False

/-- The array of the table is allocated, and has all its slots. -/
structure MapMemory.Live (mem : MapMemory K V) (hash : K → UInt64) (equals : K → K → Bool) :
    Prop where
  fits : (mem.table hash equals).Fits
  block : mem.heap.block mem.array = some (mem.table hash equals).array

section Reads

variable {hash : K → UInt64} {equals : K → K → Bool} {mem : MapMemory K V} {key : K} {d m i : Nat}
  {phase : GetPhase V}

theorem MapMemory.Live.read (h : mem.Live hash equals) (hi : i < mem.capacity) :
    mem.heap.read mem.array i = some ((mem.table hash equals).slot i) := by
  have hlen : i < (mem.table hash equals).array.length := h.fits.2.symm ▸ hi
  rw [Heap.read_eq h.block, slot_eq_getElem hlen]
  exact List.getElem?_eq_getElem hlen

omit [Inhabited K] [Inhabited V] in
/-- The slot after one of them. -/
theorem Hashmap.Fits.probe_succ {map : Hashmap K V} (h : map.Fits) (key : K) (e : Nat) :
    (map.probe key e + 1) &&& (map.capacity - 1) = map.probe key (e + 1) := by
  rw [mask_eq_mod h.1, Hashmap.probe, Hashmap.probe, Nat.mod_add_mod, Nat.add_assoc]

/-- **One read of a lookup**: it can happen, and there is one less to go. The last one reads the
value. -/
theorem getStep_at (h : mem.Live hash equals) (hf : (mem.table hash equals).Finds key d)
    (hat : phase.At (mem.table hash equals) mem.array key d m) :
    ∃ phase', getStep hash equals mem key phase = some phase' ∧
      ∃ m', m = m' + 1 ∧ (phase'.At (mem.table hash equals) mem.array key d m' ∨
        phase' = .returned ((mem.table hash equals).slot
          ((mem.table hash equals).probe key d)).value) := by
  have hread : ∀ e, mem.heap.read mem.array ((mem.table hash equals).probe key e) =
      some ((mem.table hash equals).slot ((mem.table hash equals).probe key e)) := fun e =>
    h.read (Hashmap.probe_lt (Nat.lt_of_le_of_lt (Nat.zero_le d) hf.lt))
  have hlast := hf.used d (Nat.le_refl d)
  cases phase with
  | begun =>
    obtain rfl := hat
    refine ⟨_, rfl, _, rfl, Or.inl ⟨0, Nat.zero_le d, ?_, by omega⟩⟩
    exact (mask_eq_mod h.fits.1 _).trans (Nat.mod_mod _ _).symm
  | indexed i =>
    obtain ⟨e, he, rfl, rfl⟩ := hat
    exact ⟨_, rfl, _, rfl, Or.inl ⟨rfl, e, he, rfl, rfl⟩⟩
  | probing a i =>
    obtain ⟨rfl, e, he, rfl, rfl⟩ := hat
    refine ⟨.occupied mem.array _, ?_, _, rfl, Or.inl ⟨rfl, e, he, rfl, rfl⟩⟩
    rw [getStep, hread, Option.map_some, if_pos (hf.used e he)]
  | occupied a i =>
    obtain ⟨rfl, e, he, rfl, rfl⟩ := hat
    rcases Nat.lt_or_eq_of_le he with hlt | rfl
    · refine ⟨.missed _, ?_, _, rfl, Or.inl ⟨e, hlt, rfl, rfl⟩⟩
      have hne : equals key _ = false := hf.before e hlt
      rw [getStep, hread, Option.map_some, hne, if_neg Bool.false_ne_true]
    · refine ⟨.found _, ?_, _, rfl, Or.inl ⟨rfl, by omega⟩⟩
      have heq : equals key _ = true := hf.equal
      rw [getStep, hread, Option.map_some, heq, if_pos rfl]
  | missed i =>
    obtain ⟨e, he, rfl, rfl⟩ := hat
    refine ⟨_, rfl, _, rfl, Or.inl ⟨e + 1, he, ?_, by omega⟩⟩
    exact h.fits.probe_succ key e
  | found i =>
    obtain ⟨rfl, rfl⟩ := hat
    exact ⟨_, rfl, _, rfl, Or.inl ⟨rfl, rfl, rfl⟩⟩
  | result a i =>
    obtain ⟨rfl, rfl, rfl⟩ := hat
    refine ⟨.value mem.array _, ?_, _, rfl, Or.inl ⟨rfl, rfl, rfl⟩⟩
    rw [getStep, hread, Option.map_some, if_pos hlast]
  | value a i =>
    obtain ⟨rfl, rfl, rfl⟩ := hat
    refine ⟨_, ?_, 0, rfl, Or.inr rfl⟩
    rw [getStep, hread, Option.map_some]
  | returned v => exact hat.elim

end Reads

end TcpIp
