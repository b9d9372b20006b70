import TcpIp.Protocols.ArpThreadsSafe

/-!
# One thread at a time on the ARP table

A thread that runs while no other is in a call does to the table, read by read and write by write,
what the sequential functions do.

* `ArpThreads.Shows`: the cache that there is once the lock is free.
* `MergePhase.rest`: the rest of an `arp_receive` by the sequential functions, which every step keeps
  (`Merging.step`). `ResolvePhase.Finds`: what an `arp_resolve_ipv4` has found (`Resolving.step`).
* `Alone.ends`: a thread alone gets to the end of its call.
* `arpMerge_alone`, `arpResolve_alone`: a whole call. `arpMerges_alone`: message after message.
-/

namespace TcpIp

open Bytes Blocks Trace OpenAddressing

/-! ## Memory once the lock is free -/

section Settles

variable {K V : Type} [Inhabited K] [Inhabited V] {hash : K → UInt64} {equals : K → K → Bool}
  {s s' : MapThreads K V} {mem mem' : MapMemory K V} {e : MapEvent K V} {i : Nat} {key : K}
  {data : V}

theorem MapThreads.Ok.exists_settles (h : s.Ok hash equals) : ∃ mem, s.Settles mem := by
  cases howner : s.owner with
  | none => exact ⟨_, Or.inl ⟨howner, rfl⟩⟩
  | some holder =>
    obtain ⟨left, hi, ⟨mem, hwrites, -⟩, -⟩ := h.writer howner
    exact ⟨mem, Or.inr ⟨_, left, hi, hwrites⟩⟩

theorem MapThreads.Ok.settles_unique (h : s.Ok hash equals) (hm : s.Settles mem)
    (hm' : s.Settles mem') : mem = mem' := by
  rcases hm with ⟨hnone, rfl⟩ | ⟨i, left, hi, hwrites⟩
  · rcases hm' with ⟨-, rfl⟩ | ⟨j, left, hj, -⟩
    · rfl
    · have howner := h.only hj
      rw [hnone] at howner
      cases howner
  · have howner := h.only hi
    rcases hm' with ⟨hnone, -⟩ | ⟨j, left', hj, hwrites'⟩
    · rw [hnone] at howner
      cases howner
    · obtain rfl := Option.some.inj (howner.symm.trans (h.only hj))
      cases hi.symm.trans hj
      exact Option.some.inj (hwrites.symm.trans hwrites')

/-- Only the begin of a `hashmap_put` changes what memory will be. -/
theorem MapMoves.settles_stays (hmove : MapMoves hash equals s e s') (h : s.Ok hash equals)
    (h' : s'.Ok hash equals) (hput : ∀ i key data, e ≠ .put i key data) (hm : s.Settles mem) :
    s'.Settles mem := by
  obtain ⟨mem', hset⟩ := h'.exists_settles
  rcases hmove.settles h hset with hold | ⟨i, key, data, -, he, -⟩
  · rwa [h.settles_unique hm hold]
  · exact absurd he (hput i key data)

/-- It changes it to what the sequential `hashmap_put` gives. -/
theorem MapMoves.settles_put (hmove : MapMoves hash equals s (.put i key data) s')
    (h : s.Ok hash equals) (hm : s.Settles mem) : ∃ mem', s'.Settles mem' ∧
      hashmapPut (mem.table hash equals) key data = some (mem'.table hash equals) := by
  cases hmove with
  | put howner htask hfree hput =>
    obtain rfl := h.settles_unique (Or.inl ⟨howner, rfl⟩) hm
    have hholds := h.quiet howner
    obtain ⟨script, mem', hput', hwrites, hgoes, hmap, hupdated⟩ :=
      exists_putScript hholds.block hholds.sound key data
    obtain rfl := Option.some.inj (hput'.symm.trans hput)
    refine ⟨mem', Or.inr ⟨i, _, (getElem?_moved htask).mpr (by rw [if_pos rfl]), hwrites⟩, ?_⟩
    have htable : mem'.table hash equals = script.map :=
      hgoes.shows.table hupdated.hash hupdated.equals
    rw [htable]
    exact hmap

end Settles

/-! ## The rest of a call -/

/-- The cache that there is once the lock is free. -/
structure ArpThreads.Shows (s : ArpThreads) (cache : ArpCache) : Prop where
  map : ∃ mem, s.table.Settles mem ∧ mem.table arpHash arpEquals = cache.map
  cells : s.cells = cache.cells
  keys : s.keys = cache.keys

/-- The bytes of `src_mac` from `n` on are copied over those of `mac`. -/
def macFrom (n : Nat) (srcMac mac : Mac) : Mac :=
  .ofFn fun j => if j.val < n then mac[j] else srcMac[j]

def cacheCopyFrom (cell n : Nat) (srcMac : Mac) (cache : ArpCache) : ArpCache :=
  { cache with cells := cache.cells.modify cell (macFrom n srcMac) }

/-- What is left of an `arp_receive`. -/
def MergePhase.rest (ip : UInt32) (msg : ArpMessage) (cache : ArpCache) :
    MergePhase → Except Stop ArpCache
  | .begun => arpMerge ip msg cache
  | .found | .looking => setInArpCache ARP_IPV4 msg.srcIp msg.srcMac cache
  | .copying cell n =>
    match cachePut (stackKey ARP_IPV4 msg.srcIp) (some cell)
      (cacheCopyFrom cell n msg.srcMac cache) with
    | none => .error .hang
    | some cache => .ok cache
  | .absent => addToArpCache ARP_IPV4 msg.srcIp msg.srcMac cache
  | .allocated key cell =>
    match cachePut key (some cell) cache with
    | none => .error .hang
    | some cache => .ok cache
  | .putting | .done => .ok cache

section Copy

variable {cell n : Nat} {srcMac mac : Mac} {cache : ArpCache}

theorem macFrom_zero : macFrom 0 srcMac mac = srcMac := by
  ext j hj
  simp [macFrom]

theorem macFrom_all (hn : 6 ≤ n) : macFrom n srcMac mac = mac := by
  ext j hj
  simp [macFrom, Nat.lt_of_lt_of_le hj hn]

/-- One byte is copied. -/
theorem macFrom_copy (hn : n < 6) :
    macFrom (n + 1) srcMac (mac.setIfInBounds n (srcMac.toList.getD n 0)) =
      macFrom n srcMac mac := by
  ext j hj
  simp only [macFrom, Vector.getElem_ofFn, Fin.getElem_fin, Vector.getElem_setIfInBounds]
  rcases Nat.lt_trichotomy j n with hlt | rfl | hgt
  · rw [if_pos (Nat.lt_succ_of_lt hlt), if_neg (Nat.ne_of_gt hlt), if_pos hlt]
  · rw [if_pos (Nat.lt_succ_self _), if_pos rfl, if_neg (Nat.lt_irrefl _)]
    simp [List.getD_eq_getElem?_getD, hn]
  · rw [if_neg (by omega), if_neg (by omega)]

theorem cacheCopyFrom_zero : cacheCopyFrom cell 0 srcMac cache = cacheCopy cell srcMac cache := by
  have hall : macFrom 0 srcMac = fun _ => srcMac := funext fun _ => macFrom_zero
  have hset : cache.cells.modify cell (fun _ => srcMac) = cache.cells.set cell srcMac := by
    refine List.ext_getElem? fun j => ?_
    rw [List.getElem?_modify, List.getElem?_set]
    by_cases hj : cell = j
    · subst hj
      by_cases hlt : cell < cache.cells.length
      · simp [hlt]
      · simp [hlt]
    · simp [hj]
  rw [cacheCopyFrom, cacheCopy, hall, hset]

theorem cacheCopyFrom_all (hn : 6 ≤ n) : cacheCopyFrom cell n srcMac cache = cache := by
  have hall : macFrom n srcMac = id := funext fun _ => macFrom_all hn
  rw [cacheCopyFrom, hall, List.modify_id]

end Copy

/-! ## What a step shows -/

section Shows

variable {s s' : ArpThreads} {cache : ArpCache} {i cell n : Nat} {task : ArpTask} {srcMac : Mac}
  {key : KeyRef} {ref : CellRef} {e : MapEvent KeyRef CellRef} {owner owner' : Nat → UInt32}

namespace ArpThreads

theorem Shows.goTo (h : s.Shows cache) (i : Nat) (task : ArpTask) : (s.goTo i task).Shows cache :=
  ⟨h.map, h.cells, h.keys⟩

theorem Shows.table (h : s.Shows cache) (hok : s.Ok owner) (howner : s.table.owner = none) :
    s.table.mem.table arpHash arpEquals = cache.map := by
  obtain ⟨mem, hset, hmap⟩ := h.map
  rw [hok.table.settles_unique (Or.inl ⟨howner, rfl⟩) hset, hmap]

/-- A lookup begins, or a call takes a step. -/
theorem Shows.call (h : s.Shows cache) (hok : s.Ok owner) (hok' : s'.Ok owner')
    (hput : ∀ i key data, e ≠ .put i key data) (hcall : s.call i e task = some s') :
    s'.Shows cache := by
  obtain ⟨table, htable, rfl⟩ := Option.map_eq_some_iff.mp hcall
  obtain ⟨mem, hset, hmap⟩ := h.map
  have hmove := mapThreadsStep_moves arpHash arpEquals htable
  exact ⟨⟨mem, hmove.settles_stays hok.table hok'.table hput hset, hmap⟩, h.cells, h.keys⟩

/-- A `hashmap_put` begins. -/
theorem Shows.put (h : s.Shows cache) (hok : s.Ok owner)
    (hcall : s.call i (.put i key ref) task = some s') :
    ∃ cache', cachePut key ref cache = some cache' ∧ s'.Shows cache' := by
  obtain ⟨table, htable, rfl⟩ := Option.map_eq_some_iff.mp hcall
  obtain ⟨mem, hset, hmap⟩ := h.map
  obtain ⟨mem', hset', hput⟩ :=
    (mapThreadsStep_moves arpHash arpEquals htable).settles_put hok.table hset
  refine ⟨{ cache with map := mem'.table arpHash arpEquals }, ?_, ⟨mem', hset', rfl⟩, h.cells,
    h.keys⟩
  rw [cachePut, ← hmap, hput]
  rfl

theorem Shows.calloc (h : s.Shows cache) (srcMac : Mac) :
    (s.calloc srcMac).Shows (cacheCalloc srcMac cache) :=
  ⟨h.map, congrArg (· ++ [srcMac]) h.cells, congrArg (· + 1) h.keys⟩

/-- A byte is copied. -/
theorem Shows.copyByte (h : s.Shows cache) (cell : Nat) (srcMac : Mac) (hn : n < 6) : ∃ cache',
    (s.copyByte cell n srcMac).Shows cache' ∧
      cacheCopyFrom cell (n + 1) srcMac cache' = cacheCopyFrom cell n srcMac cache := by
  refine ⟨{ cache with cells := (s.copyByte cell n srcMac).cells }, ⟨h.map, rfl, h.keys⟩, ?_⟩
  simp only [cacheCopyFrom, ArpThreads.copyByte, h.cells, List.modify_modify_eq]
  have hcopy : macFrom (n + 1) srcMac ∘
      (fun mac => mac.setIfInBounds n (srcMac.toList.getD n 0)) = macFrom n srcMac :=
    funext fun _ => macFrom_copy hn
  rw [hcopy]

end ArpThreads

end Shows

/-! ## A thread alone -/

/-- No other thread is in a call. -/
structure ArpThreads.Alone (s : ArpThreads) (i : Nat) : Prop where
  ok : ∃ owner, s.Ok owner
  others : ∀ (j : Nat) task, j ≠ i → s.tasks[j]? = some task → task.free = true

theorem MapTask.reads_of_free {K V : Type} {m : MapTask K V} (h : m.free = true) :
    m.reads = false := by
  cases m with
  | idle | put => rfl
  | get key since phase =>
    cases phase with
    | returned => rfl
    | begun | indexed | probing | occupied | missed | found | result | value => cases h

/-- A thread that is about to begin a `hashmap_put` is in no call on the table. -/
theorem ArpTask.Uses.free_of_stores {task : ArpTask} {m : MapTask KeyRef CellRef}
    (h : task.Uses m) (hstores : task.stores = true) : m.free = true := by
  cases task with
  | idle => cases hstores
  | receive msg phase =>
    cases phase with
    | copying | allocated => exact h
    | begun | found | looking | absent | putting | done => cases hstores
  | resolve x phase =>
    cases phase with
    | begun | found | looking | reading | null => cases hstores

section Alone

variable {s s' : ArpThreads} {ip : UInt32} {i r : Nat} {task : ArpTask}

namespace ArpThreads.Alone

theorem unowned (h : s.Alone i) (hi : s.tasks[i]? = some task)
    (hput : ∀ msg, task ≠ .receive msg .putting) : s.table.owner = none := by
  obtain ⟨owner, hok⟩ := h.ok
  cases howner : s.table.owner with
  | none => rfl
  | some holder =>
    obtain ⟨msg, hj⟩ := hok.holder howner
    by_cases hji : holder.1 = i
    · rw [hji, hi] at hj
      exact absurd (Option.some.inj hj) (hput msg)
    · cases h.others _ _ hji hj

/-- No lookup is under way when it begins a `hashmap_put`. -/
theorem guard (h : s.Alone i) (hi : s.tasks[i]? = some task) : ArpGuard s (.step i) := by
  rw [ArpGuard, hi, Option.any_some]
  refine ⟨fun hlooks => ?_, fun hstores _ m hm => ?_⟩
  · rw [h.unowned hi (by rintro msg rfl; cases hlooks)]
    rintro ⟨⟩
  · obtain ⟨owner, hok⟩ := h.ok
    obtain ⟨j, hj⟩ := List.mem_iff_getElem?.mp hm
    have hlt : j < s.tasks.length := hok.threads ▸ (List.getElem?_eq_some_iff.mp hj).1
    obtain ⟨-, m', hm', huse⟩ := hok.task (List.getElem?_eq_getElem hlt)
    cases hj.symm.trans hm'
    by_cases hji : j = i
    · subst hji
      cases hi.symm.trans (List.getElem?_eq_getElem hlt)
      exact MapTask.reads_of_free (huse.free_of_stores hstores)
    · exact MapTask.reads_of_free (huse.free (h.others j _ hji (List.getElem?_eq_getElem hlt)))

theorem step (h : s.Alone i) (hstep : arpThreadsStep ip s (.step i) = some s') : s'.Alone i := by
  obtain ⟨task, hi, htask⟩ := Option.bind_eq_some_iff.mp hstep
  refine ⟨arpThreadsStep_ok h.ok (h.guard hi) hstep, fun j task' hji hj => ?_⟩
  refine h.others j task' hji ?_
  have hset : ∀ task₁, (s.tasks.set i task₁)[j]? = s.tasks[j]? := fun task₁ =>
    List.getElem?_set_ne (Ne.symm hji)
  cases arpTaskStep_moves htask with
  | apart _ htasks => rw [← hj, htasks, hset]
  | inside hcall | beginGet hcall | beginPut hcall =>
    obtain ⟨table, -, rfl⟩ := Option.map_eq_some_iff.mp hcall
    exact (hset _).symm.trans hj

end ArpThreads.Alone

/-- A step comes nearer to the end of the call. -/
theorem ArpMoves.ends {owner owner' : Nat → UInt32} (hmove : ArpMoves s i task s') (h : s.Ok owner)
    (h' : s'.Ok owner') (hi : s.tasks[i]? = some task)
    (hleft : s.table.Left arpHash arpEquals i r) :
    ∃ task' r', s'.tasks[i]? = some task' ∧ s'.table.Left arpHash arpEquals i r' ∧
      (task'.stepsLeft 0 < task.stepsLeft 0 ∨ task' = task ∧ r' < r) := by
  have hset : ∀ task', (s.tasks.set i task')[i]? = some task' := fun task' =>
    (getElem?_moved hi).mpr (by rw [if_pos rfl])
  cases hmove with
  | @apart task' htable htasks hless =>
    exact ⟨task', r, by rw [htasks, hset], htable ▸ hleft, Or.inl (hless 0)⟩
  | inside hcall =>
    obtain ⟨table, htable, rfl⟩ := Option.map_eq_some_iff.mp hcall
    obtain ⟨r', hleft', hr'⟩ := h.table.left hleft rfl htable
    simp only [MapEvent.isStep, beq_self_eq_true, if_true] at hr'
    exact ⟨task, r', hset task, hleft', Or.inr ⟨rfl, hr'⟩⟩
  | @beginGet key task' hcall hless =>
    obtain ⟨table, htable, rfl⟩ := Option.map_eq_some_iff.mp hcall
    have hmove := mapThreadsStep_moves arpHash arpEquals htable
    exact ⟨task', _, hset task', h'.table.left_beginGet hmove (Nat.le_refl _),
      Or.inl (Nat.lt_of_le_of_lt (Nat.le_add_right _ _) (hless 0))⟩
  | @beginPut key ref task' hcall hless =>
    obtain ⟨table, htable, rfl⟩ := Option.map_eq_some_iff.mp hcall
    have hmove := mapThreadsStep_moves arpHash arpEquals htable
    exact ⟨task', _, hset task', h.table.left_beginPut hmove (Nat.le_refl _),
      Or.inl (Nat.lt_of_le_of_lt (Nat.le_add_right _ _) (hless 0))⟩

end Alone

/-- A thread alone gets to the end of its call; what its steps keep holds there. -/
theorem ArpThreads.Alone.ends {ip : UInt32} {i : Nat} {I : ArpThreads → Prop}
    (hstep : ∀ s s', s.Alone i → I s → arpThreadsStep ip s (.step i) = some s' → I s')
    {s : ArpThreads} {task : ArpTask} {r : Nat} (h : s.Alone i) (hI : I s)
    (hi : s.tasks[i]? = some task) (hleft : s.table.Left arpHash arpEquals i r) :
    ∃ n s' task', run (arpThreadsStep ip) s (List.replicate n (.step i)) = some s' ∧ s'.Alone i ∧
      I s' ∧ s'.tasks[i]? = some task' ∧ task'.free = true := by
  cases hfree : task.free with
  | true => exact ⟨0, s, task, rfl, h, hI, hi, hfree⟩
  | false =>
    obtain ⟨owner, hok⟩ := h.ok
    obtain ⟨s₁, hs₁⟩ := hok.task_runs ip hi hfree fun hlocks =>
      h.unowned hi (by rintro msg rfl; cases hlocks)
    obtain ⟨owner₁, hok₁⟩ := (h.step hs₁).ok
    have htask : arpTaskStep ip s i task = some s₁ := by
      rw [← hs₁, arpThreadsStep, hi, Option.bind_some]
    obtain ⟨task₁, r₁, hi₁, hleft₁, hless⟩ := (arpTaskStep_moves htask).ends hok hok₁ hi hleft
    obtain ⟨n, s', task', hrun, hend⟩ :=
      ArpThreads.Alone.ends hstep (h.step hs₁) (hstep s s₁ h hI hs₁) hi₁ hleft₁
    refine ⟨n + 1, s', task', ?_, hend⟩
    rw [List.replicate_succ, run, hs₁]
    exact hrun
termination_by (task.stepsLeft 0, r)
decreasing_by
  rcases hless with hless | ⟨rfl, hless⟩
  · exact Prod.Lex.left _ _ hless
  · exact Prod.Lex.right _ hless

/-! ## Lookups -/

/-- No `hashmap_put` has begun since the lookup of thread `i` did. -/
def ArpThreads.Fresh (s : ArpThreads) (i : Nat) : Prop :=
  ∀ key since phase, s.table.tasks[i]? = some (.get key since phase) → since = s.table.puts

section Fresh

variable {s s' : ArpThreads} {cache : ArpCache} {i : Nat} {task : ArpTask} {key : KeyRef}
  {owner : Nat → UInt32} {x : UInt32}

namespace ArpThreads

theorem Fresh.begin (howner : s.table.owner = none)
    (hcall : s.call i (.get i key) task = some s') : s'.Fresh i := by
  obtain ⟨table, htable, rfl⟩ := Option.map_eq_some_iff.mp hcall
  intro key' since phase hget
  cases mapThreadsStep_moves arpHash arpEquals htable with
  | get htask =>
    rw [getElem?_moved htask, if_pos rfl] at hget
    cases hget
    exact MapThreads.shown_of_unowned howner

theorem Fresh.call (h : s.Fresh i) (hcall : s.call i (.step i) task = some s') : s'.Fresh i := by
  obtain ⟨table, htable, rfl⟩ := Option.map_eq_some_iff.mp hcall
  intro key' since phase hget
  cases mapThreadsStep_moves arpHash arpEquals htable with
  | read htask =>
    rw [getElem?_moved htask, if_pos rfl] at hget
    cases hget
    exact h _ _ _ htask
  | release htask | write htask =>
    rw [getElem?_moved htask, if_pos rfl] at hget
    cases hget

/-- `is_in_arp_cache`, as the sequential one. -/
theorem Shows.isIn (h : s.Shows cache) (hok : s.Ok owner) (howner : s.table.owner = none)
    (x : UInt32) : s.isIn x = isInArpCache ARP_IPV4 x cache := by
  rw [ArpThreads.isIn, howner, h.table hok howner]
  rfl

/-- What a lookup has returned that no `hashmap_put` overlapped with. -/
theorem Shows.returned (h : s.Shows cache) (hok : s.Ok owner) (howner : s.table.owner = none)
    (hfresh : s.Fresh i) {since : List (KeyRef × CellRef)} {phase : GetPhase CellRef}
    (hm : s.table.tasks[i]? = some (.get (stackKey ARP_IPV4 x) since phase)) {ref : CellRef}
    (href : s.returned i = some ref) : cacheGet ARP_IPV4 x cache = some ref := by
  obtain ⟨rfl, -⟩ := hok.returned hm href
  rcases hok.table.gets hm with ⟨v, past, hv, hsince, hpast, hlast⟩ | ⟨-, -, m, hr⟩
  · cases hv
    rw [MapThreads.shown_of_unowned howner] at hpast
    rw [hfresh _ _ _ hm] at hsince
    obtain rfl := hpast.eq_of_length (Nat.le_antisymm hpast.length_le hsince.length_le)
    have hholds := hok.table.quiet howner
    rw [cacheGet, ← h.table hok howner, hholds.sound.get, hholds.lookup, hlast]
    rfl
  · cases hr.reads since

end ArpThreads

end Fresh

/-! ## Whole calls -/

section Calls

variable {s s' : ArpThreads} {cache cache' : ArpCache} {i : Nat} {ip x : UInt32} {msg : ArpMessage}
  {owner owner' : Nat → UInt32}

/-- Thread `i` is in an `arp_receive`, the rest of which leaves `cache'`. -/
def ArpThreads.Merging (ip : UInt32) (msg : ArpMessage) (cache' : ArpCache) (i : Nat)
    (s : ArpThreads) : Prop :=
  ∃ phase cache, s.tasks[i]? = some (.receive msg phase) ∧ s.Shows cache ∧
    phase.rest ip msg cache = .ok cache' ∧ (phase = .looking → s.Fresh i)

namespace ArpThreads.Merging

theorem goTo {task : ArpTask} {phase : MergePhase} (hi : s.tasks[i]? = some task)
    (hshows : s.Shows cache) (hrest : phase.rest ip msg cache = .ok cache')
    (hphase : phase ≠ .looking) : (s.goTo i (.receive msg phase)).Merging ip msg cache' i :=
  ⟨phase, cache, (getElem?_moved hi).mpr (by rw [if_pos rfl]), hshows.goTo i _, hrest,
    fun heq => absurd heq hphase⟩

theorem call {task : ArpTask} {phase : MergePhase} {e : MapEvent KeyRef CellRef}
    (hi : s.tasks[i]? = some task) (hcall : s.call i e (.receive msg phase) = some s')
    (hshows : s'.Shows cache) (hrest : phase.rest ip msg cache = .ok cache')
    (hfresh : phase = .looking → s'.Fresh i) : s'.Merging ip msg cache' i := by
  obtain ⟨table, -, rfl⟩ := Option.map_eq_some_iff.mp hcall
  exact ⟨phase, cache, (getElem?_moved hi).mpr (by rw [if_pos rfl]), hshows, hrest, hfresh⟩

/-- A `hashmap_put` begins. -/
theorem put {task : ArpTask} {key : KeyRef} {ref : CellRef} (hi : s.tasks[i]? = some task)
    (hok : s.Ok owner) (hshows : s.Shows cache)
    (hcall : s.call i (.put i key ref) (.receive msg .putting) = some s')
    (hrest : (match cachePut key ref cache with
      | none => .error .hang
      | some cache => .ok cache) = (.ok cache' : Except Stop ArpCache)) :
    s'.Merging ip msg cache' i := by
  obtain ⟨cache₁, hput, hshows₁⟩ := hshows.put hok hcall
  rw [hput] at hrest
  exact call hi hcall hshows₁ hrest (by rintro ⟨⟩)

theorem begun (hi : s.tasks[i]? = some (.receive msg .begun)) (hok : s.Ok owner)
    (howner : s.table.owner = none) (hshows : s.Shows cache)
    (hrest : arpMerge ip msg cache = .ok cache')
    (hstep : arpMergeStep ip s i msg .begun = some s') : s'.Merging ip msg cache' i := by
  rw [arpMergeStep] at hstep
  rw [arpMerge] at hrest
  split at hstep
  · rename_i hs
    obtain ⟨inCache, hin, rfl⟩ := Option.map_eq_some_iff.mp hstep
    rw [hshows.isIn hok howner] at hin
    rw [if_pos hs, hin] at hrest
    cases inCache with
    | true => exact goTo hi hshows hrest (by rintro ⟨⟩)
    | false =>
      by_cases hip : msg.dstIp = ip
      · simp only [if_pos hip] at hrest
        rw [if_neg Bool.false_ne_true, if_pos hip]
        exact goTo hi hshows hrest (by rintro ⟨⟩)
      · simp only [if_neg hip] at hrest
        rw [if_neg Bool.false_ne_true, if_neg hip]
        exact goTo hi hshows hrest (by rintro ⟨⟩)
  · rename_i hs
    obtain rfl := Option.some.inj hstep
    rw [if_neg hs] at hrest
    exact goTo hi hshows hrest (by rintro ⟨⟩)

theorem looking (hi : s.tasks[i]? = some (.receive msg .looking)) (hok : s.Ok owner)
    (hok' : s'.Ok owner') (howner : s.table.owner = none) (hfresh : s.Fresh i)
    (hshows : s.Shows cache)
    (hrest : setInArpCache ARP_IPV4 msg.srcIp msg.srcMac cache = .ok cache')
    (hstep : arpMergeStep ip s i msg .looking = some s') : s'.Merging ip msg cache' i := by
  rw [arpMergeStep] at hstep
  split at hstep
  · exact call hi hstep (hshows.call hok hok' (by rintro _ _ _ ⟨⟩) hstep) hrest
      fun _ => hfresh.call hstep
  · rename_i ref href
    obtain ⟨-, m, hm, since, phase, rfl⟩ := hok.task hi
    have hget := hshows.returned hok howner hfresh hm href
    obtain ⟨cell, rfl, rfl⟩ := Option.map_eq_some_iff.mp hstep
    rw [setInArpCache, hget] at hrest
    refine goTo hi hshows ?_ (by rintro ⟨⟩)
    rw [MergePhase.rest, cacheCopyFrom_zero]
    exact hrest

theorem copying {cell n : Nat} (hi : s.tasks[i]? = some (.receive msg (.copying cell n)))
    (hok : s.Ok owner) (hshows : s.Shows cache)
    (hrest : (MergePhase.copying cell n).rest ip msg cache = .ok cache')
    (hstep : arpMergeStep ip s i msg (.copying cell n) = some s') :
    s'.Merging ip msg cache' i := by
  rw [arpMergeStep] at hstep
  rw [MergePhase.rest] at hrest
  split at hstep
  · rename_i hn
    obtain rfl := Option.some.inj hstep
    obtain ⟨cache₁, hshows₁, hcopy⟩ := hshows.copyByte cell msg.srcMac hn
    rw [← hcopy] at hrest
    exact goTo (s := s.copyByte cell n msg.srcMac) hi hshows₁ hrest (by rintro ⟨⟩)
  · rename_i hn
    rw [cacheCopyFrom_all (Nat.le_of_not_lt hn)] at hrest
    exact put hi hok hshows hstep hrest

/-- What a step leaves for the rest of the call. -/
theorem step (h : s.Merging ip msg cache' i) (halone : s.Alone i)
    (hstep : arpThreadsStep ip s (.step i) = some s') : s'.Merging ip msg cache' i := by
  obtain ⟨owner', hok'⟩ := (halone.step hstep).ok
  obtain ⟨owner, hok⟩ := halone.ok
  obtain ⟨phase, cache, hi, hshows, hrest, hfresh⟩ := h
  have hunowned : phase ≠ .putting → s.table.owner = none := fun hput =>
    halone.unowned hi (by rintro _ heq; cases heq; exact hput rfl)
  rw [arpThreadsStep, hi, Option.bind_some, arpTaskStep] at hstep
  cases phase with
  | begun => exact begun hi hok (hunowned (by rintro ⟨⟩)) hshows hrest hstep
  | found =>
    exact call hi hstep (hshows.call hok hok' (by rintro _ _ _ ⟨⟩) hstep) hrest
      fun _ => Fresh.begin (hunowned (by rintro ⟨⟩)) hstep
  | looking => exact looking hi hok hok' (hunowned (by rintro ⟨⟩)) (hfresh rfl) hshows hrest hstep
  | copying cell n => exact copying hi hok hshows hrest hstep
  | absent =>
    obtain rfl := Option.some.inj hstep
    refine goTo (s := s.calloc msg.srcMac) hi (hshows.calloc msg.srcMac) ?_ (by rintro ⟨⟩)
    rw [hshows.keys, hshows.cells]
    exact hrest
  | allocated key cell => exact put hi hok hshows hstep hrest
  | putting =>
    rw [arpMergeStep] at hstep
    split at hstep
    · obtain rfl := Option.some.inj hstep
      exact goTo hi hshows hrest (by rintro ⟨⟩)
    · exact call hi hstep (hshows.call hok hok' (by rintro _ _ _ ⟨⟩) hstep) hrest (by rintro ⟨⟩)
  | done => cases hstep

end ArpThreads.Merging

/-- What an `arp_resolve_ipv4` has found so far. -/
def ResolvePhase.Finds (cache : ArpCache) (x : UInt32) : ResolvePhase → Prop
  | .begun => True
  | .found | .looking => isInArpCache ARP_IPV4 x cache = some true
  | .reading cell bytes => isInArpCache ARP_IPV4 x cache = some true ∧
      cacheGet ARP_IPV4 x cache = some (some cell) ∧
      ∃ mac, cache.cells[cell]? = some mac ∧ bytes = mac.toList.take bytes.length
  | .null => isInArpCache ARP_IPV4 x cache = some false

/-- Thread `i` is in an `arp_resolve_ipv4`, or in the copy of the address. -/
def ArpThreads.Resolving (x : UInt32) (cache : ArpCache) (i : Nat) (s : ArpThreads) : Prop :=
  ∃ phase, s.tasks[i]? = some (.resolve x phase) ∧ s.Shows cache ∧ phase.Finds cache x ∧
    (phase = .looking → s.Fresh i)

namespace ArpThreads.Resolving

theorem goTo {task : ArpTask} {phase : ResolvePhase} (hi : s.tasks[i]? = some task)
    (hshows : s.Shows cache) (hfinds : phase.Finds cache x) (hphase : phase ≠ .looking) :
    (s.goTo i (.resolve x phase)).Resolving x cache i :=
  ⟨phase, (getElem?_moved hi).mpr (by rw [if_pos rfl]), hshows.goTo i _, hfinds,
    fun heq => absurd heq hphase⟩

theorem call {task : ArpTask} {e : MapEvent KeyRef CellRef} (hi : s.tasks[i]? = some task)
    (hok : s.Ok owner) (hok' : s'.Ok owner') (hput : ∀ i key data, e ≠ .put i key data)
    (hcall : s.call i e (.resolve x .looking) = some s') (hshows : s.Shows cache)
    (hin : isInArpCache ARP_IPV4 x cache = some true) (hfresh : s'.Fresh i) :
    s'.Resolving x cache i := by
  have hshows' := hshows.call hok hok' hput hcall
  obtain ⟨table, -, rfl⟩ := Option.map_eq_some_iff.mp hcall
  exact ⟨.looking, (getElem?_moved hi).mpr (by rw [if_pos rfl]), hshows', hin, fun _ => hfresh⟩

theorem looking (hi : s.tasks[i]? = some (.resolve x .looking)) (hok : s.Ok owner)
    (hok' : s'.Ok owner') (howner : s.table.owner = none) (hfresh : s.Fresh i)
    (hshows : s.Shows cache) (hin : isInArpCache ARP_IPV4 x cache = some true)
    (hstep : arpResolveStep s i x .looking = some s') : s'.Resolving x cache i := by
  obtain ⟨-, m, hm, since, phase, rfl⟩ := hok.task hi
  rw [arpResolveStep] at hstep
  split at hstep
  · exact call hi hok hok' (by rintro _ _ _ ⟨⟩) hstep hshows hin (hfresh.call hstep)
  · rename_i href
    obtain ⟨-, c, hc, -⟩ := hok.returned hm href
    cases hc
  · rename_i cell href
    obtain ⟨-, c, hc, howns⟩ := hok.returned hm href
    cases hc
    have hget := hshows.returned hok howner hfresh hm href
    obtain rfl := Option.some.inj hstep
    have hcell := List.getElem?_eq_getElem (hshows.cells ▸ howns.1 : cell < cache.cells.length)
    exact goTo hi hshows ⟨hin, hget, _, hcell, rfl⟩ (by rintro ⟨⟩)

/-- A byte is read. -/
theorem reading {cell : Nat} {bytes : List UInt8}
    (hi : s.tasks[i]? = some (.resolve x (.reading cell bytes))) (hshows : s.Shows cache)
    (hfinds : (ResolvePhase.reading cell bytes).Finds cache x)
    (hstep : arpResolveStep s i x (.reading cell bytes) = some s') : s'.Resolving x cache i := by
  obtain ⟨hin, hget, mac, hmac, hbytes⟩ := hfinds
  rw [arpResolveStep] at hstep
  split at hstep
  · rename_i hlen
    obtain ⟨mac', hmac', rfl⟩ := Option.map_eq_some_iff.mp hstep
    rw [hshows.cells] at hmac'
    obtain rfl := Option.some.inj (hmac.symm.trans hmac')
    refine goTo hi hshows ⟨hin, hget, mac, hmac, ?_⟩ (by rintro ⟨⟩)
    rw [List.length_append, List.length_singleton, List.take_add_one, ← hbytes]
    simp [List.getD_eq_getElem?_getD, hlen]
  · cases hstep

theorem step (h : s.Resolving x cache i) (halone : s.Alone i)
    (hstep : arpThreadsStep ip s (.step i) = some s') : s'.Resolving x cache i := by
  obtain ⟨owner', hok'⟩ := (halone.step hstep).ok
  obtain ⟨owner, hok⟩ := halone.ok
  obtain ⟨phase, hi, hshows, hfinds, hfresh⟩ := h
  have howner : s.table.owner = none := halone.unowned hi (by rintro _ ⟨⟩)
  rw [arpThreadsStep, hi, Option.bind_some, arpTaskStep] at hstep
  cases phase with
  | begun =>
    obtain ⟨inCache, hin, rfl⟩ := Option.map_eq_some_iff.mp hstep
    rw [hshows.isIn hok howner] at hin
    cases inCache with
    | true => exact goTo hi hshows hin (by rintro ⟨⟩)
    | false => exact goTo hi hshows hin (by rintro ⟨⟩)
  | found =>
    exact call hi hok hok' (by rintro _ _ _ ⟨⟩) hstep hshows hfinds (Fresh.begin howner hstep)
  | looking => exact looking hi hok hok' howner (hfresh rfl) hshows hfinds hstep
  | reading cell bytes => exact reading hi hshows hfinds hstep
  | null => cases hstep

end ArpThreads.Resolving

end Calls

/-! ## The sequential functions -/

/-- No thread is in a call, and the table and the cells are those of `cache`. -/
structure ArpThreads.Rests (s : ArpThreads) (cache : ArpCache) : Prop where
  ok : ∃ owner, s.Ok owner
  free : ∀ (j : Nat) task, s.tasks[j]? = some task → task.free = true
  shows : s.Shows cache

section Rests

variable {s s' : ArpThreads} {cache cache' : ArpCache} {i : Nat} {ip x : UInt32} {msg : ArpMessage}
  {task : ArpTask}

theorem ArpThreads.Alone.rests (h : s.Alone i) (hi : s.tasks[i]? = some task)
    (hfree : task.free = true) (hshows : s.Shows cache) : s.Rests cache := by
  refine ⟨h.ok, fun j task' hj => ?_, hshows⟩
  by_cases hji : j = i
  · subst hji
    obtain rfl := Option.some.inj (hi.symm.trans hj)
    exact hfree
  · exact h.others j task' hji hj

/-- A thread that is in no call on the table, whatever it is about to do. -/
theorem ArpThreads.Rests.left (h : s.Rests cache) (hi : s.tasks[i]? = some task) :
    s.table.Left arpHash arpEquals i 0 := by
  obtain ⟨owner, hok⟩ := h.ok
  obtain ⟨-, m, hm, huse⟩ := hok.task hi
  exact Or.inl ⟨m, hm, huse.free (h.free i task hi)⟩

/-- The first event of a call. -/
theorem ArpThreads.Rests.begin (h : s.Rests cache) (hi : s.tasks[i]? = some task)
    {e : ArpThreadsEvent} {s₁ : ArpThreads} {task₁ : ArpTask}
    (hstep : arpThreadsStep ip s e = some s₁) (hguard : ArpGuard s e)
    (htable : s₁.table = s.table) (htasks : s₁.tasks = s.tasks.set i task₁) :
    s₁.Alone i ∧ s₁.tasks[i]? = some task₁ ∧ s₁.table.Left arpHash arpEquals i 0 := by
  refine ⟨⟨arpThreadsStep_ok h.ok hguard hstep, fun j task' hji hj => ?_⟩, ?_, htable ▸ h.left hi⟩
  · rw [htasks, List.getElem?_set_ne (Ne.symm hji)] at hj
    exact h.free j task' hj
  · rw [htasks]
    exact (getElem?_moved hi).mpr (by rw [if_pos rfl])

/-- An `arp_receive` of one thread alone does to the table and the cells what the sequential one
does. -/
theorem arpMerge_alone (h : s.Rests cache) (hi : s.tasks[i]? = some task)
    (hmerge : arpMerge ip msg cache = .ok cache') :
    ∃ n s', run (arpThreadsStep ip) s (.receive i msg :: List.replicate n (.step i)) = some s' ∧
      s'.tasks[i]? = some (.receive msg .done) ∧ s'.Rests cache' := by
  have hstep : arpThreadsStep ip s (.receive i msg) =
      some { s.goTo i (.receive msg .begun) with heard := s.heard ++ [msg] } :=
    if_pos (by rw [hi, Option.any_some, h.free i task hi])
  obtain ⟨halone, hi₁, hleft⟩ := h.begin hi hstep trivial rfl rfl
  have hmerging : ArpThreads.Merging ip msg cache' i
      { s.goTo i (.receive msg .begun) with heard := s.heard ++ [msg] } :=
    ⟨.begun, cache, hi₁, ⟨h.shows.map, h.shows.cells, h.shows.keys⟩, hmerge, by rintro ⟨⟩⟩
  obtain ⟨n, s', task', hrun, halone', ⟨phase, cache₁, hi', hshows, hrest, -⟩, htask', hfree⟩ :=
    halone.ends (fun _ _ ha hm hs => hm.step ha hs) hmerging hi₁ hleft
  obtain rfl := Option.some.inj (hi'.symm.trans htask')
  refine ⟨n, s', by rw [run, hstep]; exact hrun, ?_⟩
  cases phase with
  | done =>
    obtain rfl := Except.ok.inj hrest
    exact ⟨hi', halone'.rests hi' hfree hshows⟩
  | begun | found | looking | copying | absent | allocated | putting => cases hfree

/-- An `arp_resolve_ipv4` of one thread alone, with the copy of the address, finds and reads what the
sequential one does. -/
theorem arpResolve_alone (h : s.Rests cache) (hi : s.tasks[i]? = some task) :
    ∃ n s' phase,
      run (arpThreadsStep ip) s (.resolve i x :: List.replicate n (.step i)) = some s' ∧
      s'.tasks[i]? = some (.resolve x phase) ∧ s'.Rests cache ∧
      ((isInArpCache ARP_IPV4 x cache = some false ∧ phase = .null) ∨
        ∃ cell mac, isInArpCache ARP_IPV4 x cache = some true ∧
          cacheGet ARP_IPV4 x cache = some (some cell) ∧ cache.cells[cell]? = some mac ∧
          phase = .reading cell mac.toList) := by
  have hstep : arpThreadsStep ip s (.resolve i x) = some (s.goTo i (.resolve x .begun)) :=
    if_pos (by rw [hi, Option.any_some, h.free i task hi])
  obtain ⟨halone, hi₁, hleft⟩ := h.begin hi hstep trivial rfl rfl
  have hresolving : ArpThreads.Resolving x cache i (s.goTo i (.resolve x .begun)) :=
    ⟨.begun, hi₁, h.shows.goTo i _, trivial, by rintro ⟨⟩⟩
  obtain ⟨n, s', task', hrun, halone', ⟨phase, hi', hshows, hfinds, -⟩, htask', hfree⟩ :=
    halone.ends (fun _ _ ha hr hs => hr.step ha hs) hresolving hi₁ hleft
  obtain rfl := Option.some.inj (hi'.symm.trans htask')
  refine ⟨n, s', phase, by rw [run, hstep]; exact hrun, hi', halone'.rests hi' hfree hshows, ?_⟩
  cases phase with
  | null => exact Or.inl ⟨hfinds, rfl⟩
  | reading cell bytes =>
    obtain ⟨hin, hget, mac, hmac, hbytes⟩ := hfinds
    have hlen : 6 ≤ bytes.length := of_decide_eq_true hfree
    refine Or.inr ⟨cell, mac, hin, hget, hmac, ?_⟩
    rw [hbytes, List.take_of_length_le (by simpa using hlen)]
  | begun | found | looking => cases hfree

/-- Message after message. -/
theorem ArpThreads.Rests.merges {msgs : List ArpMessage} (h : s.Rests cache)
    (hi : s.tasks[i]? = some task)
    (hmerges : msgs.foldlM (fun cache msg => arpMerge ip msg cache) cache = .ok cache') :
    ∃ es s', run (arpThreadsStep ip) s es = some s' ∧ s'.Rests cache' := by
  induction msgs generalizing s cache task with
  | nil =>
    obtain rfl := Except.ok.inj hmerges
    exact ⟨[], s, rfl, h⟩
  | cons msg msgs ih =>
    rw [List.foldlM_cons] at hmerges
    cases hmerge : arpMerge ip msg cache with
    | error stop =>
      rw [hmerge] at hmerges
      cases hmerges
    | ok cache₁ =>
      rw [hmerge] at hmerges
      obtain ⟨n, s₁, hrun, hi₁, h₁⟩ := arpMerge_alone h hi hmerge
      obtain ⟨es, s', hrun', h'⟩ := ih h₁ hi₁ hmerges
      exact ⟨_ ++ es, s', by rw [run_append, hrun]; exact hrun', h'⟩

theorem start_rests (hinit : arpInit = some cache) (n : Nat) :
    (ArpThreads.start cache n).Rests cache := by
  have hok := start_threads hinit n
  obtain ⟨map, hmap, rfl⟩ := exists_arpInit_map hinit
  obtain ⟨-, hhash, hequals, -⟩ := hashmapAlloc_sound lawful_arp hmap
  refine ⟨⟨_, hok⟩, fun j task hj => ?_, ⟨_, Or.inl ⟨rfl, rfl⟩, ?_⟩, rfl, rfl⟩
  · rw [List.eq_of_mem_replicate (List.mem_of_getElem? hj)]
    rfl
  · rw [← hhash, ← hequals]
    rfl

/-- **The sequential runs are interleavings.** Whatever messages the sequential `arp_receive` handles
after `arp_init`, the threads have a run that ends with the same table and the same cells. -/
theorem arpMerges_alone {msgs : List ArpMessage} (hinit : arpInit = some cache) {n : Nat}
    (hn : 0 < n)
    (hmerges : msgs.foldlM (fun cache msg => arpMerge ip msg cache) cache = .ok cache') :
    ∃ es s', run (arpThreadsStep ip) (ArpThreads.start cache n) es = some s' ∧ s'.Rests cache' :=
  (start_rests hinit n).merges (List.getElem?_replicate_of_lt hn) hmerges

end Rests

end TcpIp
