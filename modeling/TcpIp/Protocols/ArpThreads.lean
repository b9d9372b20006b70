import TcpIp.CacheRun
import TcpIp.Collections.HashmapUnlocked
import TcpIp.Protocols.ArpKeys

/-!
# Threads on one ARP table

The threads of `main` run `arp_receive` on frames of any senders, and others run
`arp_resolve_ipv4` and read the address behind the pointer that they get. `cache_mutex` is held in
`hashmap_contains_key` and in `hashmap_put` only. So a `hashmap_get` goes read by read while another
thread is in a `hashmap_put` write by write (`MapThreads`), and a `memcpy` goes byte by byte, into a
cell that others copy into and read from at the same time.

* `ArpThreads`: the table with the part of each thread in it, the cells, and the threads.
* `arpMergeStep`, `arpResolveStep`, `arpThreadsStep`: a step of a thread, and of an interleaving.
* `ArpGuard`: no expansion of the table overlaps with a lookup. Without it a lookup can give another
  cell, or none (`hashmap_get_overtaken`).
* `MapThreads.Settles`: memory as it is when the lock is free again, and `settled_usedKeys`: the key
  pointers that are in the table then.
* `ArpThreads.Ok`: the invariant. Each cell belongs to one address for good (`owner`), from its
  allocation on, in the table or not.
* `Ok.goTo`, `Ok.call`, `Ok.copyByte`, `Ok.calloc`: the four kinds of steps keep it.
-/

namespace TcpIp

open Bytes Blocks Trace OpenAddressing

/-! ## The threads -/

/-- How far an `arp_receive` has come. -/
inductive MergePhase where
  | begun
  /-- The sender is in the cache. -/
  | found
  /-- In the `hashmap_get` of `set_in_arp_cache`. -/
  | looking
  /-- `n` bytes of the address are copied into `cell`. -/
  | copying (cell n : Nat)
  /-- The sender is not in the cache, and the message is for us. -/
  | absent
  /-- A key and a filled cell are allocated. -/
  | allocated (key : KeyRef) (cell : Nat)
  /-- In `hashmap_put`. -/
  | putting
  | done
deriving Repr, DecidableEq

/-- How far an `arp_resolve_ipv4`, and the copy of the address it is called for, have come. -/
inductive ResolvePhase where
  | begun
  | found
  /-- In `hashmap_get`. -/
  | looking
  /-- These bytes of `cell` have been read. -/
  | reading (cell : Nat) (bytes : List UInt8)
  /-- `NULL`. -/
  | null
deriving Repr, DecidableEq

inductive ArpTask where
  | idle
  | receive (msg : ArpMessage) (phase : MergePhase)
  | resolve (x : UInt32) (phase : ResolvePhase)
deriving DecidableEq

/-- The thread can begin another call. -/
def ArpTask.free : ArpTask → Bool
  | .idle | .receive _ .done | .resolve _ .null => true
  | .resolve _ (.reading _ bytes) => 6 ≤ bytes.length
  | .receive .. | .resolve .. => false

/-- The next step begins a `hashmap_get`. -/
def ArpTask.looksUp : ArpTask → Bool
  | .receive _ .found | .resolve _ .found => true
  | .idle | .receive .. | .resolve .. => false

/-- The next step begins a `hashmap_put`. -/
def ArpTask.stores : ArpTask → Bool
  | .receive _ (.copying _ n) => 6 ≤ n
  | .receive _ (.allocated _ _) => true
  | .idle | .receive .. | .resolve .. => false

/-- The next step takes `cache_mutex`. -/
def ArpTask.locks : ArpTask → Bool
  | .receive _ .begun | .resolve _ .begun => true
  | task => task.stores

structure ArpThreads where
  /-- The table, and how far each thread has come in a call on it. -/
  table : MapThreads KeyRef CellRef
  /-- The cells `calloc(6, sizeof(char))` returned, in order of allocation. -/
  cells : List Mac
  /-- The number of keys allocated. -/
  keys : Nat
  /-- The messages received so far. -/
  heard : List ArpMessage
  tasks : List ArpTask

namespace ArpThreads

/-- `n` threads, and the cache of `arp_init`. -/
def start (cache : ArpCache) (n : Nat) : ArpThreads :=
  { table := .start cache.map n, cells := cache.cells, keys := cache.keys, heard := []
    tasks := List.replicate n .idle }

def goTo (s : ArpThreads) (i : Nat) (task : ArpTask) : ArpThreads :=
  { s with tasks := s.tasks.set i task }

/-- Thread `i` takes a step in a call on the table. -/
def call (s : ArpThreads) (i : Nat) (e : MapEvent KeyRef CellRef) (task : ArpTask) :
    Option ArpThreads :=
  (mapThreadsStep arpHash arpEquals s.table e).map fun table => { s.goTo i task with table }

/-- `is_in_arp_cache`: while it holds the lock nobody writes, so it is one step. `none`: it waits for
the lock. -/
def isIn (s : ArpThreads) (x : UInt32) : Option Bool :=
  if s.table.owner.isSome then none
  else hashmapContainsKey (s.table.mem.table arpHash arpEquals) (stackKey ARP_IPV4 x)

/-- What the `hashmap_get` of thread `i` has returned. -/
def returned (s : ArpThreads) (i : Nat) : Option CellRef := (s.table.tasks[i]?).bind MapTask.data

/-- Byte `n` of `memcpy(dst_mac, src_mac, 6)`. -/
def copyByte (s : ArpThreads) (cell n : Nat) (srcMac : Mac) : ArpThreads :=
  { s with cells := s.cells.modify cell fun mac => mac.setIfInBounds n (srcMac.toList.getD n 0) }

/-- A key and a cell from `calloc`, the cell filled with `src_mac`. -/
def calloc (s : ArpThreads) (srcMac : Mac) : ArpThreads :=
  { s with cells := s.cells ++ [srcMac], keys := s.keys + 1 }

end ArpThreads

/-- The next step of thread `i` in `arp_receive`. `none`: it waits for the lock, or an `assert` fails,
or an access goes wrong. -/
def arpMergeStep (ip : UInt32) (s : ArpThreads) (i : Nat) (msg : ArpMessage) :
    MergePhase → Option ArpThreads
  | .begun =>
    if msg.Supported then
      (s.isIn msg.srcIp).map fun inCache => s.goTo i (.receive msg
        (if inCache then .found else if msg.dstIp = ip then .absent else .done))
    else some (s.goTo i (.receive msg .done))
  | .found => s.call i (.get i (stackKey ARP_IPV4 msg.srcIp)) (.receive msg .looking)
  | .looking =>
    match s.returned i with
    | none => s.call i (.step i) (.receive msg .looking)
    | some ref => ref.map fun cell => s.goTo i (.receive msg (.copying cell 0))
  | .copying cell n =>
    if n < 6 then some ((s.copyByte cell n msg.srcMac).goTo i (.receive msg (.copying cell (n + 1))))
    else s.call i (.put i (stackKey ARP_IPV4 msg.srcIp) (some cell)) (.receive msg .putting)
  | .absent =>
    some ((s.calloc msg.srcMac).goTo i (.receive msg
      (.allocated ⟨.heap s.keys, toKey ARP_IPV4 msg.srcIp⟩ s.cells.length)))
  | .allocated key cell => s.call i (.put i key (some cell)) (.receive msg .putting)
  | .putting =>
    if (s.table.tasks[i]?).any MapTask.free then some (s.goTo i (.receive msg .done))
    else s.call i (.step i) (.receive msg .putting)
  | .done => none

/-- The next step of thread `i` in `arp_resolve_ipv4`, or in the copy of the address. -/
def arpResolveStep (s : ArpThreads) (i : Nat) (x : UInt32) : ResolvePhase → Option ArpThreads
  | .begun => (s.isIn x).map fun inCache => s.goTo i (.resolve x (if inCache then .found else .null))
  | .found => s.call i (.get i (stackKey ARP_IPV4 x)) (.resolve x .looking)
  | .looking =>
    match s.returned i with
    | none => s.call i (.step i) (.resolve x .looking)
    | some none => some (s.goTo i (.resolve x .null))
    | some (some cell) => some (s.goTo i (.resolve x (.reading cell [])))
  | .reading cell bytes =>
    if bytes.length < 6 then
      (s.cells[cell]?).map fun mac =>
        s.goTo i (.resolve x (.reading cell (bytes ++ [mac.toList.getD bytes.length 0])))
    else none
  | .null => none

def arpTaskStep (ip : UInt32) (s : ArpThreads) (i : Nat) : ArpTask → Option ArpThreads
  | .idle => none
  | .receive msg phase => arpMergeStep ip s i msg phase
  | .resolve x phase => arpResolveStep s i x phase

inductive ArpThreadsEvent where
  /-- Thread `i` starts to handle a message. -/
  | receive (i : Nat) (msg : ArpMessage)
  /-- Thread `i` calls `arp_resolve_ipv4`. -/
  | resolve (i : Nat) (x : UInt32)
  /-- Thread `i` takes its next step. -/
  | step (i : Nat)

def arpThreadsStep (ip : UInt32) (s : ArpThreads) : ArpThreadsEvent → Option ArpThreads
  | .receive i msg =>
    if (s.tasks[i]?).any ArpTask.free then
      some { s.goTo i (.receive msg .begun) with heard := s.heard ++ [msg] }
    else none
  | .resolve i x =>
    if (s.tasks[i]?).any ArpTask.free then some (s.goTo i (.resolve x .begun)) else none
  | .step i => (s.tasks[i]?).bind (arpTaskStep ip s i)

/-- No expansion of the table overlaps with a lookup: none begins while a thread is in a lookup, and
no lookup begins while a thread expands the table. -/
def ArpGuard (s : ArpThreads) : ArpThreadsEvent → Prop
  | .receive .. | .resolve .. => True
  | .step i =>
    ((s.tasks[i]?).any ArpTask.looksUp → s.table.owner.map Prod.snd ≠ some true) ∧
      ((s.tasks[i]?).any ArpTask.stores →
        hashmapLoadFactor (s.table.mem.table arpHash arpEquals) > 70 →
          ∀ task ∈ s.table.tasks, task.reads = false)

instance decidableArpGuard (s : ArpThreads) : (e : ArpThreadsEvent) → Decidable (ArpGuard s e)
  | .receive .. | .resolve .. => isTrue trivial
  | .step _ => inferInstanceAs (Decidable ((_ → _) ∧ (_ → _ → _)))

/-! ## When the lock is free again -/

section Settles

variable {K V : Type} {s s' : MapThreads K V} {i : Nat} {mem : MapMemory K V}

/-- Memory after the `hashmap_put` that holds the lock, if there is one. -/
def MapThreads.Settles [Inhabited K] [Inhabited V] (s : MapThreads K V) (mem : MapMemory K V) :
    Prop :=
  (s.owner = none ∧ s.mem = mem) ∨
    ∃ (i : Nat) (left : List (MapWrite K V)), s.tasks[i]? = some (.put left) ∧
      s.mem.writes left = some mem

variable [Inhabited K] [Inhabited V] {hash : K → UInt64} {equals : K → K → Bool}
  {e : MapEvent K V}

/-- Thread `i` has moved on, not into a `hashmap_put`. -/
theorem settles_moved {a b : MapTask K V} (h : s'.Settles mem) (howner : s'.owner = s.owner)
    (hmem : s'.mem = s.mem) (htasks : s'.tasks = s.tasks.set i b) (hi : s.tasks[i]? = some a)
    (hb : ∀ left, b ≠ .put left) : s.Settles mem := by
  rcases h with ⟨hnone, rfl⟩ | ⟨j, left, hj, hwrites⟩
  · exact Or.inl ⟨howner ▸ hnone, hmem.symm⟩
  · rw [htasks, getElem?_moved hi] at hj
    split at hj
    · exact absurd hj.symm (hb left)
    · exact Or.inr ⟨j, left, hj, hmem ▸ hwrites⟩

/-- Only the begin of a `hashmap_put` changes what memory will be. -/
theorem MapMoves.settles (h : s.Ok hash equals) (hmove : MapMoves hash equals s e s')
    (hset : s'.Settles mem) :
    s.Settles mem ∨ ∃ i key data script, e = .put i key data ∧ s.owner = none ∧
      putScriptN 2 (s.mem.script hash equals) key data = some script ∧
      s.mem.writes script.writes = some mem := by
  cases hmove with
  | get htask => exact Or.inl (settles_moved hset rfl rfl rfl htask (by rintro _ ⟨⟩))
  | read htask => exact Or.inl (settles_moved hset rfl rfl rfl htask (by rintro _ ⟨⟩))
  | put howner htask hfree hput =>
    rcases hset with ⟨hnone, -⟩ | ⟨j, left, hj, hwrites⟩
    · cases hnone
    · rw [getElem?_moved htask] at hj
      split at hj
      · cases hj
        exact Or.inr ⟨_, _, _, _, rfl, howner, hput, hwrites⟩
      · have hother := h.only hj
        rw [howner] at hother
        cases hother
  | release htask =>
    rcases hset with ⟨-, rfl⟩ | ⟨j, left, hj, hwrites⟩
    · exact Or.inl (Or.inr ⟨_, [], htask, rfl⟩)
    · rw [getElem?_moved htask] at hj
      split at hj
      · cases hj
      · exact Or.inl (Or.inr ⟨j, left, hj, hwrites⟩)
  | write htask hwrite =>
    rcases hset with ⟨hnone, -⟩ | ⟨j, left, hj, hwrites⟩
    · have howner := h.only htask
      rw [show s.owner = none from hnone] at howner
      cases howner
    · rw [getElem?_moved htask] at hj
      split at hj
      · cases hj
        refine Or.inl (Or.inr ⟨_, _, htask, ?_⟩)
        rw [MapMemory.writes_cons, hwrite]
        exact hwrites
      · rename_i hne
        have howner := (h.only htask).symm.trans (h.only hj)
        exact absurd (Option.some.inj howner).symm hne

omit [Inhabited K] [Inhabited V] in
theorem MapThreads.stored_of_unowned (h : s.owner = none) : s.stored = s.puts := by
  rw [stored, h]
  rfl

theorem MapMoves.puts_eq (hmove : MapMoves hash equals s e s') :
    s'.puts = s.puts ∨ ∃ i key data, e = .put i key data ∧ s'.puts = (key, data) :: s.puts := by
  cases hmove with
  | put => exact Or.inr ⟨_, _, _, rfl, rfl⟩
  | get | read | release | write => exact Or.inl rfl

theorem MapMoves.length_tasks (hmove : MapMoves hash equals s e s') :
    s'.tasks.length = s.tasks.length := by
  cases hmove with
  | put | get | read | release | write => exact List.length_set

/-- The key pointers after a `hashmap_put`: the new one is there only if the key was not. -/
theorem settled_usedKeys {l : List (K × V)} {key : K} {data : V} {script : MapScript K V}
    {mem' : MapMemory K V} (h : mem.Holds hash equals l)
    (hput : putScriptN 2 (mem.script hash equals) key data = some script)
    (hwrites : mem.writes script.writes = some mem') {k : K}
    (hk : k ∈ (mem'.table hash equals).usedKeys) :
    k ∈ (mem.table hash equals).usedKeys ∨ k = key ∧ lastPut equals l key = none := by
  obtain ⟨script', mem₁, hput', hwrites', hgoes, hmap, hupdated⟩ :=
    exists_putScript h.block h.sound key data
  obtain rfl := Option.some.inj (hput'.symm.trans hput)
  obtain rfl := Option.some.inj (hwrites'.symm.trans hwrites)
  have htable : mem₁.table hash equals = script'.map :=
    hgoes.shows.table hupdated.hash hupdated.equals
  rw [htable] at hk
  have hperm := (h.sound.put_usedKeys hmap).mem_iff.mp hk
  rw [h.lookup] at hperm
  split at hperm
  · exact Or.inl hperm
  · rename_i hnew
    rcases List.mem_cons.mp hperm with rfl | hold
    · exact Or.inr ⟨rfl, by simpa using hnew⟩
    · exact Or.inl hold

section Tasks

variable {key : K} {data : V}

theorem MapMoves.get_task (hmove : MapMoves hash equals s (.get i key) s') :
    s'.tasks[i]? = some (.get key s.shown .begun) := by
  cases hmove with
  | get htask => exact (getElem?_moved htask).mpr (by rw [if_pos rfl])

theorem MapMoves.put_task (hmove : MapMoves hash equals s (.put i key data) s') :
    ∃ left, s'.tasks[i]? = some (.put left) := by
  cases hmove with
  | put howner htask => exact ⟨_, (getElem?_moved htask).mpr (by rw [if_pos rfl])⟩

/-- A read. -/
theorem MapMoves.step_get (hmove : MapMoves hash equals s (.step i) s') {since : List (K × V)}
    {phase : GetPhase V} (hi : s.tasks[i]? = some (.get key since phase)) :
    ∃ phase', s'.tasks[i]? = some (.get key since phase') := by
  cases hmove with
  | read htask =>
    cases hi.symm.trans htask
    exact ⟨_, (getElem?_moved htask).mpr (by rw [if_pos rfl])⟩
  | release htask | write htask => cases hi.symm.trans htask

/-- A write, or the release of the lock. -/
theorem MapMoves.step_put (hmove : MapMoves hash equals s (.step i) s')
    {left : List (MapWrite K V)} (hi : s.tasks[i]? = some (.put left)) :
    ∃ m, s'.tasks[i]? = some m ∧ (m = .idle ∨ ∃ left, m = .put left) := by
  cases hmove with
  | read htask => cases hi.symm.trans htask
  | release htask => exact ⟨_, (getElem?_moved htask).mpr (by rw [if_pos rfl]), Or.inl rfl⟩
  | write htask => exact ⟨_, (getElem?_moved htask).mpr (by rw [if_pos rfl]), Or.inr ⟨_, rfl⟩⟩

end Tasks

end Settles

/-! ## The invariant -/

/-- `equals` of `arp.c` compares what the pointers point to. -/
theorem lastPut_arp {l : List (KeyRef × CellRef)} {k k' : KeyRef} (h : k.val = k'.val) :
    lastPut arpEquals l k = lastPut arpEquals l k' := by
  unfold lastPut arpEquals
  rw [h]

/-- A message from `x` showed the byte `b` at `j`. -/
def Shown (heard : List ArpMessage) (x : UInt32) (j : Nat) (b : UInt8) : Prop :=
  ∃ msg ∈ heard, msg.From x ∧ msg.srcMac.toList[j]? = some b

namespace ArpThreads

/-- A `hashmap_put` that has returned has stored the address. -/
def Knows (s : ArpThreads) (x : UInt32) : Prop :=
  (lastPut arpEquals s.table.stored (stackKey ARP_IPV4 x)).isSome = true

/-- `owner c` is the address that cell `c` was allocated for. -/
def Owns (s : ArpThreads) (owner : Nat → UInt32) (x : UInt32) (c : Nat) : Prop :=
  c < s.cells.length ∧ owner c = x

/-- A key that `add_to_arp_cache` has allocated. -/
def OnHeap (s : ArpThreads) (key : KeyRef) : Prop := ∃ id, id < s.keys ∧ key.loc = .heap id

end ArpThreads

/-- What holds of a thread. -/
def ArpTask.Ok (owner : Nat → UInt32) (s : ArpThreads) : ArpTask → Prop
  | .idle => True
  | .receive msg phase => msg ∈ s.heard ∧
    match phase with
    | .begun | .putting | .done => True
    | .found | .looking => msg.Supported ∧ s.Knows msg.srcIp
    | .copying c _ => msg.Supported ∧ s.Knows msg.srcIp ∧ s.Owns owner msg.srcIp c
    | .absent => msg.Supported
    | .allocated key c => s.Owns owner msg.srcIp c ∧ key.val = toKey ARP_IPV4 msg.srcIp ∧
        s.OnHeap key
  | .resolve x phase =>
    match phase with
    | .begun | .null => True
    | .found | .looking => s.Knows x
    | .reading c bytes => s.Owns owner x c ∧ ∀ j b, bytes[j]? = some b → Shown s.heard x j b

/-- What the thread does on the table. -/
def ArpTask.Uses : ArpTask → MapTask KeyRef CellRef → Prop
  | .receive msg .looking, m => ∃ since phase, m = .get (stackKey ARP_IPV4 msg.srcIp) since phase
  | .resolve x .looking, m => ∃ since phase, m = .get (stackKey ARP_IPV4 x) since phase
  | .receive _ .putting, m => m = .idle ∨ ∃ left, m = .put left
  | .idle, m | .receive .., m | .resolve .., m => m.free = true

structure ArpThreads.Ok (owner : Nat → UInt32) (s : ArpThreads) : Prop where
  table : s.table.Ok arpHash arpEquals
  threads : s.table.tasks.length = s.tasks.length
  /-- The value of a key is a cell of its address. -/
  puts : ∀ {key ref}, (key, ref) ∈ s.table.puts → ∃ x c, ref = some c ∧ s.Owns owner x c ∧
    key.val = toKey ARP_IPV4 x
  shown : ∀ {c mac}, s.cells[c]? = some mac → ∀ j b, mac.toList[j]? = some b →
    Shown s.heard (owner c) j b
  /-- No key of a stack is in the table when the lock is free. -/
  heap : ∀ {mem}, s.table.Settles mem →
    ∀ key ∈ (mem.table arpHash arpEquals).usedKeys, s.OnHeap key
  task : ∀ {i : Nat} {task}, s.tasks[i]? = some task → task.Ok owner s ∧
    ∃ m, s.table.tasks[i]? = some m ∧ task.Uses m

/-- What a step does, as the other threads see it. -/
structure ArpThreads.Grows (owner owner' : Nat → UInt32) (s s' : ArpThreads) : Prop where
  stored : s.table.stored <:+ s'.table.stored
  cells : s.cells.length ≤ s'.cells.length
  keys : s.keys ≤ s'.keys
  heard : s.heard ⊆ s'.heard
  owner : ∀ c, c < s.cells.length → owner' c = owner c

section Grows

variable {owner owner' : Nat → UInt32} {s s' : ArpThreads} {x : UInt32} {c : Nat} {key : KeyRef}
  {task : ArpTask}

theorem Shown.mono {heard heard' : List ArpMessage} {j : Nat} {b : UInt8} (hsub : heard ⊆ heard')
    (h : Shown heard x j b) : Shown heard' x j b := by
  obtain ⟨msg, hmem, h⟩ := h
  exact ⟨msg, hsub hmem, h⟩

theorem ArpThreads.Grows.knows (h : s.Grows owner owner' s') (hx : s.Knows x) : s'.Knows x :=
  lastPut_isSome_of_suffix h.stored hx

theorem ArpThreads.Grows.owns (h : s.Grows owner owner' s') (hx : s.Owns owner x c) :
    s'.Owns owner' x c :=
  ⟨Nat.lt_of_lt_of_le hx.1 h.cells, (h.owner c hx.1).trans hx.2⟩

theorem ArpThreads.Grows.onHeap (h : s.Grows owner owner' s') (hk : s.OnHeap key) :
    s'.OnHeap key := by
  obtain ⟨id, hid, hloc⟩ := hk
  exact ⟨id, Nat.lt_of_lt_of_le hid h.keys, hloc⟩

/-- A step of another thread, or a message that arrives, changes nothing for a thread. -/
theorem ArpTask.Ok.mono (h : task.Ok owner s) (hg : s.Grows owner owner' s') :
    task.Ok owner' s' := by
  cases task with
  | idle => trivial
  | receive msg phase =>
    obtain ⟨hmem, h⟩ := h
    refine ⟨hg.heard hmem, ?_⟩
    cases phase with
    | begun | putting | done => trivial
    | found | looking => exact h.imp_right hg.knows
    | copying c n =>
      obtain ⟨hs, hknown, hc⟩ := h
      exact ⟨hs, hg.knows hknown, hg.owns hc⟩
    | absent => exact h
    | allocated key c =>
      obtain ⟨hc, hkey, hheap⟩ := h
      exact ⟨hg.owns hc, hkey, hg.onHeap hheap⟩
  | resolve x phase =>
    cases phase with
    | begun | null => trivial
    | found | looking => exact hg.knows h
    | reading c bytes =>
      obtain ⟨hc, hbytes⟩ := h
      exact ⟨hg.owns hc, fun j b hb => (hbytes j b hb).mono hg.heard⟩

end Grows

namespace ArpThreads.Ok

variable {owner owner' : Nat → UInt32} {s s' : ArpThreads} {i n c : Nat} {x : UInt32}
  {key : KeyRef} {task task' : ArpTask} {msg : ArpMessage} {e : MapEvent KeyRef CellRef}
  {table : MapThreads KeyRef CellRef} {m : MapTask KeyRef CellRef}

/-- The threads and the table stay. -/
theorem stays (h : s.Ok owner) (hg : s.Grows owner owner' s') (htable : s'.table = s.table)
    (htasks : s'.tasks = s.tasks)
    (hshown : ∀ {c mac}, s'.cells[c]? = some mac → ∀ j b, mac.toList[j]? = some b →
      Shown s'.heard (owner' c) j b) : s'.Ok owner' := by
  refine ⟨htable ▸ h.table, by rw [htable, htasks, h.threads], fun {key ref} hput => ?_, hshown,
    fun {mem} hset key hkey => ?_, fun {i task} hi => ?_⟩
  · obtain ⟨x, c, href, hc, hkey⟩ := h.puts (htable ▸ hput)
    exact ⟨x, c, href, hg.owns hc, hkey⟩
  · exact hg.onHeap (h.heap (htable ▸ hset) key hkey)
  · rw [htasks] at hi
    rw [htable]
    exact (h.task hi).imp_left fun hok => hok.mono hg

/-- Nothing but the thread changes. -/
theorem goTo (h : s.Ok owner) (hi : s.tasks[i]? = some task) (hok : task'.Ok owner s)
    (hm : s.table.tasks[i]? = some m) (huses : task'.Uses m) : (s.goTo i task').Ok owner := by
  have hg : s.Grows owner owner (s.goTo i task') :=
    ⟨List.suffix_refl _, Nat.le_refl _, Nat.le_refl _, List.Subset.refl _, fun _ _ => rfl⟩
  refine ⟨h.table, h.threads.trans List.length_set.symm, h.puts, h.shown, h.heap,
    fun {j task₁} hj => ?_⟩
  rw [show (s.goTo i task').tasks = s.tasks.set i task' from rfl, getElem?_moved hi] at hj
  split at hj
  · rename_i hji
    rw [hj, hji]
    exact ⟨hok.mono hg, m, hm, huses⟩
  · exact (h.task hj).imp_left fun hok => hok.mono hg

/-- A thread takes a step in a call on the table. -/
theorem call (h : s.Ok owner) (hi : s.tasks[i]? = some task)
    (hstep : mapThreadsStep arpHash arpEquals s.table e = some table) (he : e.thread = i)
    (hguard : MapGuard arpHash arpEquals s.table e)
    (hput : ∀ j key ref, e = .put j key ref → ∃ x c, ref = some c ∧ s.Owns owner x c ∧
      key.val = toKey ARP_IPV4 x ∧ (s.Knows x ∨ s.OnHeap key)) (hok : task'.Ok owner s)
    (hm : table.tasks[i]? = some m) (huses : task'.Uses m) :
    ({ s.goTo i task' with table } : ArpThreads).Ok owner := by
  have hmove := mapThreadsStep_moves arpHash arpEquals hstep
  have hg : s.Grows owner owner { s.goTo i task' with table } :=
    ⟨hmove.stored_grows, Nat.le_refl _, Nat.le_refl _, List.Subset.refl _, fun _ _ => rfl⟩
  refine ⟨mapThreadsStep_ok h.table hguard hstep,
    hmove.length_tasks.trans (h.threads.trans List.length_set.symm), fun {key ref} hmem => ?_,
    h.shown, fun {mem} hset key hkey => ?_, fun {j task₁} hj => ?_⟩
  · rcases hmove.puts_eq with hputs | ⟨j, key', ref', rfl, hputs⟩
    · exact h.puts (hputs ▸ hmem)
    · rw [hputs] at hmem
      rcases List.mem_cons.mp hmem with heq | hold
      · cases heq
        obtain ⟨x, c, href, hc, hval, -⟩ := hput j key ref rfl
        exact ⟨x, c, href, hc, hval⟩
      · exact h.puts hold
  · rcases hmove.settles h.table hset with hold | ⟨j, key', ref, script, rfl, howner, hscript, hws⟩
    · exact h.heap hold key hkey
    · rcases settled_usedKeys (h.table.quiet howner) hscript hws hkey with hold | ⟨rfl, hnew⟩
      · exact h.heap (Or.inl ⟨howner, rfl⟩) key hold
      · -- The pointer is stored only where the key is new.
        obtain ⟨x, c, -, -, hval, hknown | hheap⟩ := hput j key ref rfl
        · rw [Knows, MapThreads.stored_of_unowned howner,
            lastPut_arp (show (stackKey ARP_IPV4 x).val = key.val from hval.symm), hnew] at hknown
          cases hknown
        · exact hheap
  · rw [show ({ s.goTo i task' with table } : ArpThreads).tasks = s.tasks.set i task' from rfl,
      getElem?_moved hi] at hj
    split at hj
    · rename_i hji
      rw [hj, hji]
      exact ⟨hok.mono hg, m, hm, huses⟩
    · rename_i hji
      obtain ⟨hok', m', hm', huses'⟩ := h.task hj
      exact ⟨hok'.mono hg, m', (hmove.others (he ▸ Ne.symm hji)).trans hm', huses'⟩

/-- One byte of a message is copied into a cell of its sender. -/
theorem copyByte (h : s.Ok owner) (hmem : msg ∈ s.heard) (hs : msg.Supported)
    (howner : owner c = msg.srcIp) (hn : n < 6) :
    (s.copyByte c n msg.srcMac).Ok owner ∧ s.Grows owner owner (s.copyByte c n msg.srcMac) := by
  have hlen : (s.copyByte c n msg.srcMac).cells.length = s.cells.length := List.length_modify _ _ _
  have hg : s.Grows owner owner (s.copyByte c n msg.srcMac) :=
    ⟨List.suffix_refl _, Nat.le_of_eq hlen.symm, Nat.le_refl _, List.Subset.refl _, fun _ _ => rfl⟩
  refine ⟨h.stays hg rfl rfl fun {c' mac} hcell j b hb => ?_, hg⟩
  simp only [ArpThreads.copyByte, List.getElem?_modify, Option.map_eq_map,
    Option.map_eq_some_iff] at hcell
  obtain ⟨old, hold, rfl⟩ := hcell
  split at hb
  · rename_i hcc
    subst hcc
    rw [Vector.toList_setIfInBounds, List.getElem?_set] at hb
    split at hb
    · rename_i hnj
      subst hnj
      refine ⟨msg, hmem, ⟨hs, howner.symm⟩, ?_⟩
      have hlt : n < msg.srcMac.toList.length := by simpa using hn
      split at hb
      · rw [← hb]
        simp [List.getD_eq_getElem?_getD, hn]
      · cases hb
    · exact h.shown hold j b hb
  · exact h.shown hold j b hb

/-- A key and a cell for the sender of a message are allocated. -/
theorem calloc (h : s.Ok owner) (hmem : msg ∈ s.heard) (hs : msg.Supported) :
    (s.calloc msg.srcMac).Ok (Function.update owner s.cells.length msg.srcIp) ∧
      s.Grows owner (Function.update owner s.cells.length msg.srcIp) (s.calloc msg.srcMac) := by
  have hold : ∀ c, c < s.cells.length →
      Function.update owner s.cells.length msg.srcIp c = owner c := fun c hc =>
    Function.update_of_ne (Nat.ne_of_lt hc) _ _
  have hg : s.Grows owner (Function.update owner s.cells.length msg.srcIp)
      (s.calloc msg.srcMac) :=
    ⟨List.suffix_refl _, by simp [ArpThreads.calloc], Nat.le_succ _, List.Subset.refl _, hold⟩
  refine ⟨h.stays hg rfl rfl fun {c mac} hcell j b hb => ?_, hg⟩
  by_cases hc : c = s.cells.length
  · subst hc
    obtain rfl : msg.srcMac = mac := by simpa [ArpThreads.calloc] using hcell
    rw [Function.update_self]
    exact ⟨msg, hmem, ⟨hs, rfl⟩, hb⟩
  · have hlt := (List.getElem?_eq_some_iff.mp hcell).1
    simp only [ArpThreads.calloc, List.length_append, List.length_singleton] at hlt
    rw [hold c (by omega)]
    exact h.shown ((List.getElem?_append_left (by omega)).symm.trans hcell) j b hb

/-- A message arrives. -/
theorem hears (h : s.Ok owner) (msg : ArpMessage) :
    ({ s with heard := s.heard ++ [msg] } : ArpThreads).Ok owner := by
  have hsub : s.heard ⊆ s.heard ++ [msg] := List.subset_append_left _ _
  refine h.stays ⟨List.suffix_refl _, Nat.le_refl _, Nat.le_refl _, hsub, fun _ _ => rfl⟩ rfl rfl
    fun {c mac} hcell j b hb => (h.shown hcell j b hb).mono hsub

end ArpThreads.Ok

end TcpIp
