import TcpIp.Protocols.ArpThreads

/-!
# Every interleaving of the threads on the ARP table

What the invariant of `ArpThreads` gives for the threads.

* `Ok.merge`, `Ok.resolve`: each step of a thread keeps the invariant.
* `arp_threads_progress`: a thread waits for nothing but `cache_mutex`, no `assert` fails, no access
  goes wrong, no lookup that follows a check finds nothing, and the table holds no key of a stack.
* `arp_threads_bytes`: each byte that is read for an address is a byte of an address that it has
  shown. So a host that shows one address is reached, whatever the interleaving.
-/

namespace TcpIp

open Bytes Blocks Trace OpenAddressing

namespace ArpThreads.Ok

variable {owner : Nat → UInt32} {s s' : ArpThreads} {i n c : Nat} {x ip : UInt32}
  {key : KeyRef} {task task' : ArpTask} {msg : ArpMessage} {since : List (KeyRef × CellRef)}
  {phase : GetPhase CellRef}

/-! ## The calls on the table -/

/-- `is_in_arp_cache`, when the lock is free. -/
theorem isIn (h : s.Ok owner) (howner : s.table.owner = none) (x : UInt32) :
    ∃ inCache, s.isIn x = some inCache ∧ (inCache = true → s.Knows x) := by
  have hholds := h.table.quiet howner
  have hin : s.isIn x = some (lastPut arpEquals s.table.puts (stackKey ARP_IPV4 x)).isSome := by
    rw [ArpThreads.isIn, howner, ← hholds.lookup]
    exact hholds.sound.containsKey _
  refine ⟨_, hin, fun hknown => ?_⟩
  rw [Knows, MapThreads.stored_of_unowned howner]
  exact hknown

/-- Only then does it return. -/
theorem knows_of_isIn (h : s.Ok owner) {inCache : Bool} (hin : s.isIn x = some inCache)
    (htrue : inCache = true) : s.Knows x := by
  have howner : s.table.owner = none := by
    cases hown : s.table.owner with
    | none => rfl
    | some holder => simp [ArpThreads.isIn, hown] at hin
  obtain ⟨inCache', hin', hknown⟩ := h.isIn howner x
  obtain rfl := Option.some.inj (hin'.symm.trans hin)
  exact hknown htrue

/-- A `hashmap_get` begins. -/
theorem beginGet (h : s.Ok owner) (hi : s.tasks[i]? = some task)
    (hstep : s.call i (.get i (stackKey ARP_IPV4 x)) task' = some s')
    (hguard : s.table.owner.map Prod.snd ≠ some true) (hknown : s.Knows x)
    (hok : task'.Ok owner s)
    (huses : ∀ since phase, task'.Uses (.get (stackKey ARP_IPV4 x) since phase)) :
    s'.Ok owner := by
  obtain ⟨table, htable, rfl⟩ := Option.map_eq_some_iff.mp hstep
  have hmove := mapThreadsStep_moves arpHash arpEquals htable
  exact h.call hi htable rfl ⟨hguard, hknown⟩ (by rintro _ _ _ ⟨⟩) hok hmove.get_task (huses _ _)

/-- A `hashmap_get` reads. -/
theorem read (h : s.Ok owner) (hi : s.tasks[i]? = some task)
    (hm : s.table.tasks[i]? = some (.get key since phase))
    (huses : ∀ phase, task.Uses (.get key since phase))
    (hstep : s.call i (.step i) task = some s') : s'.Ok owner := by
  obtain ⟨table, htable, rfl⟩ := Option.map_eq_some_iff.mp hstep
  obtain ⟨phase', hm'⟩ := (mapThreadsStep_moves arpHash arpEquals htable).step_get hm
  exact h.call hi htable rfl trivial (by rintro _ _ _ ⟨⟩) (h.task hi).1 hm' (huses phase')

/-- It returns a cell of the address. -/
theorem returned (h : s.Ok owner)
    (hm : s.table.tasks[i]? = some (.get (stackKey ARP_IPV4 x) since phase)) {ref : CellRef}
    (href : s.returned i = some ref) :
    phase = .returned ref ∧ ∃ c, ref = some c ∧ s.Owns owner x c := by
  rw [ArpThreads.returned, hm, Option.bind_some] at href
  rcases h.table.gets hm with ⟨v, past, rfl, -, hpast, hv⟩ | ⟨-, -, m, hr⟩
  · obtain rfl : v = ref := Option.some.inj href
    obtain ⟨entry, hfind, rfl⟩ := Option.map_eq_some_iff.mp hv
    have hmem : (entry.1, entry.2) ∈ s.table.puts :=
      (hpast.trans s.table.shown_suffix_puts).subset (List.mem_of_find?_eq_some hfind)
    obtain ⟨y, c, hc, howns, hkey⟩ := h.puts hmem
    have hval : toKey ARP_IPV4 x = entry.1.val := by
      simpa [arpEquals, stackKey] using List.find?_some hfind
    obtain rfl := toKey_inj.mp (hval.trans hkey)
    exact ⟨rfl, c, hc, howns⟩
  · have hreads := hr.reads since
    cases phase with
    | returned => cases hreads
    | begun | indexed | probing | occupied | missed | found | result | value => cases href

/-- A `hashmap_put` begins. -/
theorem beginPut (h : s.Ok owner) (hi : s.tasks[i]? = some task)
    (hguard : hashmapLoadFactor (s.table.mem.table arpHash arpEquals) > 70 →
      ∀ task ∈ s.table.tasks, task.reads = false)
    (hmem : msg ∈ s.heard) (hc : s.Owns owner x c) (hval : key.val = toKey ARP_IPV4 x)
    (hkey : s.Knows x ∨ s.OnHeap key)
    (hstep : s.call i (.put i key (some c)) (.receive msg .putting) = some s') : s'.Ok owner := by
  obtain ⟨table, htable, rfl⟩ := Option.map_eq_some_iff.mp hstep
  obtain ⟨left, hm⟩ := (mapThreadsStep_moves arpHash arpEquals htable).put_task
  refine h.call hi htable rfl hguard (fun j k ref he => ?_) ⟨hmem, trivial⟩ hm (Or.inr ⟨left, rfl⟩)
  cases he
  exact ⟨x, c, rfl, hc, hval, hkey⟩

/-- A `hashmap_put` writes, or gives the lock back. -/
theorem write (h : s.Ok owner) (hi : s.tasks[i]? = some (.receive msg .putting))
    {left : List (MapWrite KeyRef CellRef)} (hm : s.table.tasks[i]? = some (.put left))
    (hstep : s.call i (.step i) (.receive msg .putting) = some s') : s'.Ok owner := by
  obtain ⟨table, htable, rfl⟩ := Option.map_eq_some_iff.mp hstep
  obtain ⟨m, hm', huses⟩ := (mapThreadsStep_moves arpHash arpEquals htable).step_put hm
  exact h.call hi htable rfl trivial (by rintro _ _ _ ⟨⟩) (h.task hi).1 hm' huses

/-! ## The steps of a thread -/

/-- The check of `arp_receive` whether the sender is in the cache. -/
theorem begun (h : s.Ok owner) (hi : s.tasks[i]? = some (.receive msg .begun))
    (hstep : arpMergeStep ip s i msg .begun = some s') : s'.Ok owner := by
  obtain ⟨⟨hmem, -⟩, m, hm, huse⟩ := h.task hi
  rw [arpMergeStep] at hstep
  split at hstep
  · rename_i hs
    obtain ⟨inCache, hin, rfl⟩ := Option.map_eq_some_iff.mp hstep
    cases inCache with
    | true => exact h.goTo hi ⟨hmem, hs, h.knows_of_isIn hin rfl⟩ hm huse
    | false =>
      by_cases hip : msg.dstIp = ip
      · rw [if_neg Bool.false_ne_true, if_pos hip]
        exact h.goTo hi ⟨hmem, hs⟩ hm huse
      · rw [if_neg Bool.false_ne_true, if_neg hip]
        exact h.goTo hi ⟨hmem, trivial⟩ hm huse
  · obtain rfl := Option.some.inj hstep
    exact h.goTo hi ⟨hmem, trivial⟩ hm huse

/-- A step of `arp_receive`. -/
theorem merge (h : s.Ok owner) {phase : MergePhase} (hi : s.tasks[i]? = some (.receive msg phase))
    (hguard : ArpGuard s (.step i)) (hstep : arpMergeStep ip s i msg phase = some s') :
    ∃ owner', s'.Ok owner' := by
  obtain ⟨⟨hmem, hok⟩, m, hm, huse⟩ := h.task hi
  obtain ⟨hlookup, hstore⟩ := hguard
  rw [hi, Option.any_some] at hlookup hstore
  cases phase with
  | begun => exact ⟨owner, h.begun hi hstep⟩
  | found =>
    exact ⟨owner, h.beginGet hi hstep (hlookup rfl) hok.2 ⟨hmem, hok⟩ fun _ _ => ⟨_, _, rfl⟩⟩
  | looking =>
    obtain ⟨since, phase, rfl⟩ := huse
    rw [arpMergeStep] at hstep
    split at hstep
    · exact ⟨owner, h.read hi hm (fun _ => ⟨_, _, rfl⟩) hstep⟩
    · rename_i ref href
      obtain ⟨rfl, c, rfl, hc⟩ := h.returned hm href
      obtain rfl := Option.some.inj hstep
      exact ⟨owner, h.goTo hi ⟨hmem, hok.1, hok.2, hc⟩ hm rfl⟩
  | copying c n =>
    obtain ⟨hs, hknown, hc⟩ := hok
    rw [arpMergeStep] at hstep
    split at hstep
    · rename_i hn
      obtain rfl := Option.some.inj hstep
      obtain ⟨hok', hg⟩ := h.copyByte hmem hs hc.2 hn
      exact ⟨owner, hok'.goTo hi ⟨hmem, hs, hg.knows hknown, hg.owns hc⟩ hm huse⟩
    · rename_i hn
      exact ⟨owner, h.beginPut hi (hstore (decide_eq_true (Nat.le_of_not_lt hn))) hmem hc rfl
        (Or.inl hknown) hstep⟩
  | absent =>
    obtain rfl := Option.some.inj hstep
    obtain ⟨hok', hg⟩ := h.calloc hmem hok
    refine ⟨_, hok'.goTo hi ⟨hmem, ⟨?_, Function.update_self _ _ _⟩, rfl, s.keys,
      Nat.lt_succ_self _, rfl⟩ hm huse⟩
    simp [ArpThreads.calloc]
  | allocated key c =>
    obtain ⟨hc, hval, hheap⟩ := hok
    exact ⟨owner, h.beginPut hi (hstore rfl) hmem hc hval (Or.inr hheap) hstep⟩
  | putting =>
    rw [arpMergeStep, hm, Option.any_some] at hstep
    rcases huse with rfl | ⟨left, rfl⟩
    · obtain rfl := Option.some.inj hstep
      exact ⟨owner, h.goTo hi ⟨hmem, trivial⟩ hm rfl⟩
    · exact ⟨owner, h.write hi hm hstep⟩
  | done => cases hstep

/-- A byte of the copy of the address. -/
theorem reading (h : s.Ok owner) {bytes : List UInt8}
    (hi : s.tasks[i]? = some (.resolve x (.reading c bytes)))
    (hstep : arpResolveStep s i x (.reading c bytes) = some s') : s'.Ok owner := by
  obtain ⟨⟨howns, hbytes⟩, m, hm, huse⟩ := h.task hi
  rw [arpResolveStep] at hstep
  split at hstep
  · rename_i hlen
    obtain ⟨mac, hmac, rfl⟩ := Option.map_eq_some_iff.mp hstep
    refine h.goTo hi ⟨howns, fun j b hb => ?_⟩ hm huse
    rcases Nat.lt_trichotomy j bytes.length with hj | rfl | hj
    · exact hbytes j b (by rwa [List.getElem?_append_left hj] at hb)
    · rw [List.getElem?_concat_length] at hb
      rw [← howns.2]
      refine h.shown hmac _ b ?_
      rw [← hb]
      simp [List.getD_eq_getElem?_getD, hlen]
    · rw [List.getElem?_eq_none (by simp; omega)] at hb
      cases hb
  · cases hstep

/-- A step of `arp_resolve_ipv4`, or of the copy of the address. -/
theorem resolve (h : s.Ok owner) {phase : ResolvePhase} (hi : s.tasks[i]? = some (.resolve x phase))
    (hguard : ArpGuard s (.step i)) (hstep : arpResolveStep s i x phase = some s') : s'.Ok owner := by
  obtain ⟨hok, m, hm, huse⟩ := h.task hi
  have hlookup := hguard.1
  rw [hi, Option.any_some] at hlookup
  cases phase with
  | begun =>
    obtain ⟨inCache, hin, rfl⟩ := Option.map_eq_some_iff.mp hstep
    have hknown := h.knows_of_isIn hin
    cases inCache with
    | true => exact h.goTo hi (hknown rfl) hm huse
    | false => exact h.goTo hi trivial hm huse
  | found => exact h.beginGet hi hstep (hlookup rfl) hok hok fun _ _ => ⟨_, _, rfl⟩
  | looking =>
    obtain ⟨since, phase, rfl⟩ := huse
    rw [arpResolveStep] at hstep
    split at hstep
    · exact h.read hi hm (fun _ => ⟨_, _, rfl⟩) hstep
    · rename_i href
      obtain ⟨-, c, hc, -⟩ := h.returned hm href
      cases hc
    · rename_i c href
      obtain ⟨rfl, c', hc, howns⟩ := h.returned hm href
      cases hc
      obtain rfl := Option.some.inj hstep
      exact h.goTo hi ⟨howns, by rintro _ _ ⟨⟩⟩ hm rfl
  | reading c bytes => exact h.reading hi hstep
  | null => cases hstep

end ArpThreads.Ok

/-! ## Whole runs -/

section Runs

variable {s s' : ArpThreads} {ip : UInt32} {i : Nat} {task : ArpTask}

/-- A thread that can begin a call is in none on the table. -/
theorem ArpTask.Uses.free {m : MapTask KeyRef CellRef} (h : task.Uses m) (hfree : task.free = true) :
    m.free = true := by
  cases task with
  | idle => exact h
  | receive msg phase =>
    cases phase with
    | done => exact h
    | begun | found | looking | copying | absent | allocated | putting => cases hfree
  | resolve x phase =>
    cases phase with
    | null | reading => exact h
    | begun | found | looking => cases hfree

/-- A thread in `hashmap_put` is in an `arp_receive`. -/
theorem ArpTask.Uses.putting {left : List (MapWrite KeyRef CellRef)}
    (h : task.Uses (.put left)) : ∃ msg, task = .receive msg .putting := by
  cases task with
  | idle => cases h
  | receive msg phase =>
    cases phase with
    | putting => exact ⟨msg, rfl⟩
    | looking =>
      obtain ⟨_, _, heq⟩ := h
      cases heq
    | begun | found | copying | absent | allocated | done => cases h
  | resolve x phase =>
    cases phase with
    | looking =>
      obtain ⟨_, _, heq⟩ := h
      cases heq
    | begun | found | reading | null => cases h

theorem arpThreadsStep_ok {e : ArpThreadsEvent} (h : ∃ owner, s.Ok owner) (hguard : ArpGuard s e)
    (hstep : arpThreadsStep ip s e = some s') : ∃ owner, s'.Ok owner := by
  obtain ⟨owner, h⟩ := h
  cases e with
  | receive i msg =>
    rw [arpThreadsStep] at hstep
    split at hstep
    · rename_i hfree
      obtain ⟨task, hi, hfree⟩ := (Option.any_eq_true _ _).mp hfree
      obtain rfl := Option.some.inj hstep
      obtain ⟨-, m, hm, huse⟩ := h.task hi
      exact ⟨owner, (h.hears msg).goTo hi ⟨List.mem_append_right _ List.mem_cons_self, trivial⟩ hm
        (huse.free hfree)⟩
    · cases hstep
  | resolve i x =>
    rw [arpThreadsStep] at hstep
    split at hstep
    · rename_i hfree
      obtain ⟨task, hi, hfree⟩ := (Option.any_eq_true _ _).mp hfree
      obtain rfl := Option.some.inj hstep
      obtain ⟨-, m, hm, huse⟩ := h.task hi
      exact ⟨owner, h.goTo hi trivial hm (huse.free hfree)⟩
    · cases hstep
  | step i =>
    obtain ⟨task, hi, hstep⟩ := Option.bind_eq_some_iff.mp hstep
    cases task with
    | idle => cases hstep
    | receive msg phase => exact h.merge hi hguard hstep
    | resolve x phase => exact ⟨owner, h.resolve hi hguard hstep⟩

theorem exists_arpInit_map {cache : ArpCache} (hinit : arpInit = some cache) :
    ∃ map, hashmapAlloc ARP_CACHE_INITIAL_SIZE arpHash arpEquals = some map ∧
      cache = { map, cells := [], keys := 0 } := by
  unfold arpInit at hinit
  obtain ⟨map, hmap, heq⟩ := Option.bind_eq_some_iff.mp hinit
  exact ⟨map, hmap, (Option.some.inj heq).symm⟩

/-- The threads after `arp_init`. -/
theorem start_threads {cache : ArpCache} (hinit : arpInit = some cache) (n : Nat) :
    (ArpThreads.start cache n).Ok fun _ => 0 := by
  obtain ⟨map, hmap, rfl⟩ := exists_arpInit_map hinit
  obtain ⟨hs, hhash, hequals, hnone⟩ := hashmapAlloc_sound lawful_arp hmap
  refine ⟨start_ok lawful_arp hmap n, ?_, fun {key ref} hput => ?_, fun {c mac} hcell => ?_,
    fun {mem} hset key hkey => ?_, fun {i task} hi => ?_⟩
  · simp [ArpThreads.start, MapThreads.start]
  · cases hput
  · cases hcell
  · rcases hset with ⟨-, rfl⟩ | ⟨i, left, hi, -⟩
    · have hempty : (map.memory.table arpHash arpEquals) = map := by
        rw [← hhash, ← hequals]
        rfl
      have hkey' : key ∈ (map.memory.table arpHash arpEquals).usedKeys := hkey
      rw [hempty, hs.usedKeys_nil hnone] at hkey'
      cases hkey'
    · cases List.eq_of_mem_replicate (List.mem_of_getElem? hi)
  · have hlt : i < n := by
      have hlt := (List.getElem?_eq_some_iff.mp hi).1
      rwa [show (ArpThreads.start _ n).tasks.length = n from List.length_replicate] at hlt
    rw [List.eq_of_mem_replicate (List.mem_of_getElem? hi)]
    exact ⟨trivial, .idle, List.getElem?_replicate_of_lt hlt, rfl⟩

theorem ArpThreads.exists_call {e : MapEvent KeyRef CellRef}
    (h : ∃ table, mapThreadsStep arpHash arpEquals s.table e = some table) (task : ArpTask) :
    ∃ s', s.call i e task = some s' := by
  obtain ⟨table, htable⟩ := h
  exact ⟨_, congrArg (Option.map _) htable⟩

/-- A `hashmap_get` can begin at any time. -/
theorem exists_beginGet {table : MapThreads KeyRef CellRef} {m : MapTask KeyRef CellRef}
    (hm : table.tasks[i]? = some m) (hfree : m.free = true) (key : KeyRef) :
    ∃ table', mapThreadsStep arpHash arpEquals table (.get i key) = some table' :=
  ⟨_, if_pos (by rw [hm, Option.any_some, hfree])⟩

/-- A `hashmap_put` can begin when the lock is free. -/
theorem exists_beginPut {table : MapThreads KeyRef CellRef} (h : table.Ok arpHash arpEquals)
    {m : MapTask KeyRef CellRef} (hm : table.tasks[i]? = some m) (hfree : m.free = true)
    (howner : table.owner = none) (key : KeyRef) (ref : CellRef) :
    ∃ table', mapThreadsStep arpHash arpEquals table (.put i key ref) = some table' := by
  obtain ⟨script, -, hput, -⟩ := (h.quiet howner).put key ref
  refine Option.isSome_iff_exists.mp ?_
  rw [mapThreadsStep, howner, hm, Option.any_some, hfree, if_neg (by simp), hput]
  rfl

theorem ArpThreads.busy_of_returned {key : KeyRef} {since : List (KeyRef × CellRef)}
    {phase : GetPhase CellRef} (hm : s.table.tasks[i]? = some (.get key since phase))
    (href : s.returned i = none) : (MapTask.get key since phase).free = false := by
  rw [returned, hm, Option.bind_some] at href
  cases phase with
  | returned => cases href
  | begun | indexed | probing | occupied | missed | found | result | value => rfl

/-- A step of a thread in `arp_receive` can happen, unless it waits for the lock. -/
theorem ArpThreads.Ok.merge_runs {owner : Nat → UInt32} (h : s.Ok owner) (ip : UInt32)
    {msg : ArpMessage} {phase : MergePhase} (hi : s.tasks[i]? = some (.receive msg phase))
    (hbusy : (ArpTask.receive msg phase).free = false)
    (hlock : (ArpTask.receive msg phase).locks = true → s.table.owner = none) :
    ∃ s', arpMergeStep ip s i msg phase = some s' := by
  obtain ⟨⟨hmem, hok⟩, m, hm, huse⟩ := h.task hi
  cases phase with
  | begun =>
    obtain ⟨inCache, hin, -⟩ := h.isIn (hlock rfl) msg.srcIp
    rw [arpMergeStep, hin]
    split
    · exact ⟨_, rfl⟩
    · exact ⟨_, rfl⟩
  | found => exact exists_call (exists_beginGet hm huse _) _
  | looking =>
    obtain ⟨since, phase, rfl⟩ := huse
    rw [arpMergeStep]
    cases href : s.returned i with
    | none => exact exists_call (h.table.runs hm (busy_of_returned hm href)) _
    | some ref =>
      obtain ⟨-, c, rfl, -⟩ := h.returned hm href
      exact ⟨_, rfl⟩
  | copying c n =>
    rw [arpMergeStep]
    split
    · exact ⟨_, rfl⟩
    · rename_i hn
      have howner := hlock (decide_eq_true (Nat.le_of_not_lt hn))
      exact exists_call (exists_beginPut h.table hm huse howner _ _) _
  | absent => exact ⟨_, rfl⟩
  | allocated key c => exact exists_call (exists_beginPut h.table hm huse (hlock rfl) _ _) _
  | putting =>
    rw [arpMergeStep, hm, Option.any_some]
    rcases huse with rfl | ⟨left, rfl⟩
    · exact ⟨_, rfl⟩
    · exact exists_call (h.table.runs hm rfl) _
  | done => cases hbusy

/-- A step of a thread in `arp_resolve_ipv4`. -/
theorem ArpThreads.Ok.resolve_runs {owner : Nat → UInt32} (h : s.Ok owner) {x : UInt32}
    {phase : ResolvePhase} (hi : s.tasks[i]? = some (.resolve x phase))
    (hbusy : (ArpTask.resolve x phase).free = false)
    (hlock : (ArpTask.resolve x phase).locks = true → s.table.owner = none) :
    ∃ s', arpResolveStep s i x phase = some s' := by
  obtain ⟨hok, m, hm, huse⟩ := h.task hi
  cases phase with
  | begun =>
    obtain ⟨inCache, hin, -⟩ := h.isIn (hlock rfl) x
    rw [arpResolveStep, hin]
    exact ⟨_, rfl⟩
  | found => exact exists_call (exists_beginGet hm huse _) _
  | looking =>
    obtain ⟨since, phase, rfl⟩ := huse
    rw [arpResolveStep]
    cases href : s.returned i with
    | none => exact exists_call (h.table.runs hm (busy_of_returned hm href)) _
    | some ref =>
      obtain ⟨-, c, rfl, -⟩ := h.returned hm href
      exact ⟨_, rfl⟩
  | reading c bytes =>
    have hlen : bytes.length < 6 := Nat.lt_of_not_le (of_decide_eq_false hbusy)
    rw [arpResolveStep, if_pos hlen, List.getElem?_eq_getElem hok.1.1]
    exact ⟨_, rfl⟩
  | null => cases hbusy

/-- The thread that holds the lock is in the `hashmap_put` of an `arp_receive`. -/
theorem ArpThreads.Ok.holder {owner : Nat → UInt32} (h : s.Ok owner) {expands : Bool}
    (howner : s.table.owner = some (i, expands)) :
    ∃ msg, s.tasks[i]? = some (.receive msg .putting) := by
  obtain ⟨left, hm, -⟩ := h.table.writer howner
  have hlt : i < s.tasks.length := h.threads ▸ (List.getElem?_eq_some_iff.mp hm).1
  obtain ⟨-, m, hm', huse⟩ := h.task (List.getElem?_eq_getElem hlt)
  cases hm.symm.trans hm'
  obtain ⟨msg, hputting⟩ := huse.putting
  exact ⟨msg, (List.getElem?_eq_getElem hlt).trans (congrArg some hputting)⟩

theorem ArpThreads.Ok.task_runs {owner : Nat → UInt32} (h : s.Ok owner) (ip : UInt32)
    (hi : s.tasks[i]? = some task) (hbusy : task.free = false)
    (hlock : task.locks = true → s.table.owner = none) :
    ∃ s', arpThreadsStep ip s (.step i) = some s' := by
  rw [arpThreadsStep, hi, Option.bind_some]
  cases task with
  | idle => cases hbusy
  | receive msg phase => exact h.merge_runs ip hi hbusy hlock
  | resolve x phase => exact h.resolve_runs hi hbusy hlock

/-- A thread in a call can take its next step, or waits for the lock, whose holder can. -/
theorem ArpThreads.Ok.runs {owner : Nat → UInt32} (h : s.Ok owner) (ip : UInt32)
    (hi : s.tasks[i]? = some task) (hbusy : task.free = false) :
    (∃ s', arpThreadsStep ip s (.step i) = some s') ∨ task.locks = true ∧
      ∃ holder s', s.table.owner = some holder ∧ arpThreadsStep ip s (.step holder.1) = some s' := by
  cases howner : s.table.owner with
  | none => exact Or.inl (h.task_runs ip hi hbusy fun _ => howner)
  | some holder =>
    cases hlocks : task.locks with
    | false =>
      refine Or.inl (h.task_runs ip hi hbusy fun hlock => ?_)
      rw [hlocks] at hlock
      cases hlock
    | true =>
      obtain ⟨j, expands⟩ := holder
      obtain ⟨msg, hj⟩ := h.holder howner
      obtain ⟨s', hs'⟩ := h.task_runs ip hj rfl (by rintro ⟨⟩)
      exact Or.inr ⟨rfl, (j, expands), s', rfl, hs'⟩

end Runs

/-! ## How long a call takes -/

section Count

variable {K V : Type} [Inhabited K] [Inhabited V] {hash : K → UInt64} {equals : K → K → Bool}
  {s s' : MapThreads K V} {i r : Nat}

/-- Thread `i` has at most `r` steps left in its call on the table. -/
def MapThreads.Left (hash : K → UInt64) (equals : K → K → Bool) (s : MapThreads K V) (i r : Nat) :
    Prop :=
  (∃ m, s.tasks[i]? = some m ∧ m.free = true) ∨ (∃ m, m ≤ r ∧ s.Within hash equals i m) ∨
    ∃ left, s.tasks[i]? = some (.put left) ∧ left.length < r

omit [Inhabited K] [Inhabited V] in
theorem isStep_of_ne {e : MapEvent K V} (h : e.thread ≠ i) : e.isStep i = false := by
  cases e with
  | put | get => rfl
  | step j => exact beq_eq_false_iff_ne.mpr h

omit [Inhabited K] in
theorem free_of_getStep {mem : MapMemory K V} {key : K} {phase phase' : GetPhase V}
    (hget : getStep hash equals mem key phase = some phase') (since : List (K × V)) :
    (MapTask.get key since phase).free = false := by
  cases phase with
  | begun | indexed | probing | occupied | missed | found | result | value => rfl
  | returned => cases hget

omit [Inhabited K] [Inhabited V] in
theorem eq_step {e : MapEvent K V} (hi : e.thread = i) (hbegins : e.begins i = false) :
    e = .step i := by
  cases e with
  | put | get => exact absurd hi (beq_eq_false_iff_ne.mp hbegins)
  | step j => rw [show j = i from hi]

/-- A step of the thread is one of them; other steps leave it alone. -/
theorem MapThreads.Ok.left {e : MapEvent K V} (h : s.Ok hash equals) (hl : s.Left hash equals i r)
    (hbegins : e.begins i = false) (hstep : mapThreadsStep hash equals s e = some s') :
    ∃ r', s'.Left hash equals i r' ∧ r' + (if e.isStep i then 1 else 0) ≤ r := by
  have hmove := mapThreadsStep_moves hash equals hstep
  rcases hl with ⟨m, hm, hfree⟩ | ⟨m, hle, hw⟩ | ⟨left, hm, hlt⟩
  · by_cases hi : e.thread = i
    · obtain rfl := eq_step hi hbegins
      cases hmove with
      | read htask hget =>
        cases hm.symm.trans htask
        exact absurd hfree (by rw [free_of_getStep hget]; exact Bool.false_ne_true)
      | release htask | write htask =>
        cases hm.symm.trans htask
        cases hfree
    · exact ⟨r, Or.inl ⟨m, (hmove.others hi).trans hm, hfree⟩, by simp [isStep_of_ne hi]⟩
  · obtain ⟨m', hw', hm'⟩ := h.within hw hbegins hstep
    exact ⟨m', Or.inr (Or.inl ⟨m', Nat.le_refl _, hw'⟩), Nat.le_trans hm' hle⟩
  · by_cases hi : e.thread = i
    · obtain rfl := eq_step hi hbegins
      have hone : (if (MapEvent.step i : MapEvent K V).isStep i then 1 else 0) = 1 := by
        simp [MapEvent.isStep]
      rw [hone]
      cases hmove with
      | read htask => cases hm.symm.trans htask
      | release htask =>
        exact ⟨0, Or.inl ⟨_, (getElem?_moved htask).mpr (by rw [if_pos rfl]), rfl⟩, by omega⟩
      | write htask =>
        cases hm.symm.trans htask
        rw [List.length_cons] at hlt
        exact ⟨_, Or.inr (Or.inr ⟨_, (getElem?_moved htask).mpr (by rw [if_pos rfl]),
          Nat.lt_succ_self _⟩), by omega⟩
    · exact ⟨r, Or.inr (Or.inr ⟨left, (hmove.others hi).trans hm, hlt⟩), by simp [isStep_of_ne hi]⟩

theorem MapThreads.Left.mono {r' : Nat} (h : s.Left hash equals i r) (hle : r ≤ r') :
    s.Left hash equals i r' := by
  rcases h with hfree | ⟨m, hm, hw⟩ | ⟨left, htask, hlt⟩
  · exact Or.inl hfree
  · exact Or.inr (Or.inl ⟨m, Nat.le_trans hm hle, hw⟩)
  · exact Or.inr (Or.inr ⟨left, htask, Nat.lt_of_lt_of_le hlt hle⟩)

/-- A `hashmap_get` that begins. -/
theorem MapThreads.Ok.left_beginGet {key : K} {C : Nat} (h' : s'.Ok hash equals)
    (hmove : MapMoves hash equals s (.get i key) s') (hcap : s.mem.capacity ≤ C) :
    s'.Left hash equals i (4 * C + 3) := by
  have hm := hmove.get_task
  rcases h'.gets hm with ⟨_, _, hphase, -⟩ | ⟨-, hknown, m, d, hd, hat⟩
  · cases hphase
  · have hlt : d < s'.mem.capacity := hd.lt
    have hmem : s'.mem = s.mem := by
      cases hmove
      rfl
    rw [hmem] at hlt
    have hle : m ≤ 4 * C + 3 := Nat.le_trans hat.le (by omega)
    exact Or.inr (Or.inl ⟨m, hle, key, s.shown, .begun, hm, Or.inr ⟨hknown, d, hd, hat⟩⟩)

/-- A `hashmap_put` that begins. -/
theorem MapThreads.Ok.left_beginPut {key : K} {data : V} {C : Nat} (h : s.Ok hash equals)
    (hmove : MapMoves hash equals s (.put i key data) s') (hcap : s.mem.capacity ≤ C) :
    s'.Left hash equals i (9 * C + 10) := by
  cases hmove with
  | put howner htask hfree hput =>
    have hlen := putScriptN_length hput
    have hslots : (s.mem.table hash equals).array.length = s.mem.capacity :=
      (h.quiet howner).sound.length
    refine Or.inr (Or.inr ⟨_, (getElem?_moved htask).mpr (by rw [if_pos rfl]), ?_⟩)
    simp only [MapMemory.script, List.length_nil, hslots] at hlen
    omega

end Count

/-- The steps of its own that a thread has before it at most, where the table has at most `C` slots;
without those of a call on the table that it is in. -/
def ArpTask.stepsLeft (C : Nat) : ArpTask → Nat
  | .idle | .receive _ .done | .resolve _ .null => 0
  | .receive _ .begun => 13 * C + 24
  | .receive _ .found => 13 * C + 23
  | .receive _ .looking => 9 * C + 19
  | .receive _ (.copying _ n) => 6 - n + (9 * C + 12)
  | .receive _ .absent => 9 * C + 13
  | .receive _ (.allocated _ _) => 9 * C + 12
  | .receive _ .putting => 1
  | .resolve _ .begun => 4 * C + 12
  | .resolve _ .found => 4 * C + 11
  | .resolve _ .looking => 7
  | .resolve _ (.reading _ bytes) => 6 - bytes.length

/-- The four kinds of steps. -/
inductive ArpMoves (s : ArpThreads) (i : Nat) (task : ArpTask) (s' : ArpThreads) : Prop where
  /-- Not on the table. -/
  | apart {task'} (htable : s'.table = s.table) (htasks : s'.tasks = s.tasks.set i task')
      (hless : ∀ C, task'.stepsLeft C < task.stepsLeft C)
  /-- In a call on the table. -/
  | inside (hcall : s.call i (.step i) task = some s')
  | beginGet {key task'} (hcall : s.call i (.get i key) task' = some s')
      (hless : ∀ C, task'.stepsLeft C + (4 * C + 3) < task.stepsLeft C)
  | beginPut {key ref task'} (hcall : s.call i (.put i key ref) task' = some s')
      (hless : ∀ C, task'.stepsLeft C + (9 * C + 10) < task.stepsLeft C)

section Bound

variable {s s' : ArpThreads} {ip : UInt32} {i m C : Nat} {task : ArpTask}

theorem arpMergeStep_moves {msg : ArpMessage} {phase : MergePhase}
    (h : arpMergeStep ip s i msg phase = some s') : ArpMoves s i (.receive msg phase) s' := by
  cases phase with
  | begun =>
    rw [arpMergeStep] at h
    split at h
    · obtain ⟨inCache, -, rfl⟩ := Option.map_eq_some_iff.mp h
      refine .apart rfl rfl fun C => ?_
      cases inCache with
      | true => exact Nat.lt_succ_self _
      | false =>
        by_cases hip : msg.dstIp = ip
        · rw [if_neg Bool.false_ne_true, if_pos hip]
          simp only [ArpTask.stepsLeft]
          omega
        · rw [if_neg Bool.false_ne_true, if_neg hip]
          exact Nat.succ_pos _
    · obtain rfl := Option.some.inj h
      exact .apart rfl rfl fun C => Nat.succ_pos _
  | found => exact .beginGet h fun C => by simp only [ArpTask.stepsLeft]; omega
  | looking =>
    rw [arpMergeStep] at h
    split at h
    · exact .inside h
    · obtain ⟨cell, -, rfl⟩ := Option.map_eq_some_iff.mp h
      exact .apart rfl rfl fun C => by simp only [ArpTask.stepsLeft]; omega
  | copying c n =>
    rw [arpMergeStep] at h
    split at h
    · obtain rfl := Option.some.inj h
      exact .apart rfl rfl fun C => by simp only [ArpTask.stepsLeft]; omega
    · exact .beginPut h fun C => by simp only [ArpTask.stepsLeft]; omega
  | absent =>
    obtain rfl := Option.some.inj h
    exact .apart rfl rfl fun C => Nat.lt_succ_self _
  | allocated key c => exact .beginPut h fun C => by simp only [ArpTask.stepsLeft]; omega
  | putting =>
    rw [arpMergeStep] at h
    split at h
    · obtain rfl := Option.some.inj h
      exact .apart rfl rfl fun C => Nat.lt_succ_self _
    · exact .inside h
  | done => cases h

theorem arpResolveStep_moves {x : UInt32} {phase : ResolvePhase}
    (h : arpResolveStep s i x phase = some s') : ArpMoves s i (.resolve x phase) s' := by
  cases phase with
  | begun =>
    obtain ⟨inCache, -, rfl⟩ := Option.map_eq_some_iff.mp h
    refine .apart rfl rfl fun C => ?_
    cases inCache with
    | true => exact Nat.lt_succ_self _
    | false => exact Nat.succ_pos _
  | found => exact .beginGet h fun C => by simp only [ArpTask.stepsLeft]; omega
  | looking =>
    rw [arpResolveStep] at h
    split at h
    · exact .inside h
    · obtain rfl := Option.some.inj h
      exact .apart rfl rfl fun C => Nat.succ_pos _
    · obtain rfl := Option.some.inj h
      exact .apart rfl rfl fun C => Nat.lt_succ_self _
  | reading c bytes =>
    rw [arpResolveStep] at h
    split at h
    · obtain ⟨mac, -, rfl⟩ := Option.map_eq_some_iff.mp h
      refine .apart rfl rfl fun C => ?_
      simp only [ArpTask.stepsLeft, List.length_append, List.length_singleton]
      omega
    · cases h
  | null => cases h

/-- All that a step can do to the table. -/
theorem arpTaskStep_moves (h : arpTaskStep ip s i task = some s') : ArpMoves s i task s' := by
  cases task with
  | idle => cases h
  | receive msg phase => exact arpMergeStep_moves h
  | resolve x phase => exact arpResolveStep_moves h

/-- Thread `i` has at most `m` steps left in its call. -/
def ArpThreads.Within (C : Nat) (s : ArpThreads) (i m : Nat) : Prop :=
  ∃ task r, s.tasks[i]? = some task ∧ s.table.Left arpHash arpEquals i r ∧
    task.stepsLeft C + r ≤ m

/-- A step of the thread is one of them. -/
theorem ArpMoves.within {owner owner' : Nat → UInt32} (hmove : ArpMoves s i task s') (h : s.Ok owner)
    (h' : s'.Ok owner') (hcap : s.table.mem.capacity ≤ C) (hi : s.tasks[i]? = some task) {r : Nat}
    (hleft : s.table.Left arpHash arpEquals i r) :
    ∃ m', s'.Within C i m' ∧ m' < task.stepsLeft C + r := by
  have hset : ∀ task', (s.tasks.set i task')[i]? = some task' := fun task' =>
    (getElem?_moved hi).mpr (by rw [if_pos rfl])
  cases hmove with
  | @apart task' htable htasks hless =>
    refine ⟨_, ⟨task', r, by rw [htasks, hset], htable ▸ hleft, Nat.le_refl _⟩, ?_⟩
    exact Nat.add_lt_add_right (hless C) r
  | inside hcall =>
    obtain ⟨table, htable, rfl⟩ := Option.map_eq_some_iff.mp hcall
    obtain ⟨r', hleft', hr'⟩ := h.table.left hleft rfl htable
    refine ⟨_, ⟨task, r', hset task, hleft', Nat.le_refl _⟩, ?_⟩
    simp only [MapEvent.isStep, beq_self_eq_true, if_true] at hr'
    omega
  | @beginGet key task' hcall hless =>
    obtain ⟨table, htable, rfl⟩ := Option.map_eq_some_iff.mp hcall
    have hleft' := h'.table.left_beginGet (mapThreadsStep_moves arpHash arpEquals htable) hcap
    refine ⟨_, ⟨task', 4 * C + 3, hset task', hleft', Nat.le_refl _⟩, ?_⟩
    exact Nat.lt_of_lt_of_le (hless C) (Nat.le_add_right _ _)
  | @beginPut key ref task' hcall hless =>
    obtain ⟨table, htable, rfl⟩ := Option.map_eq_some_iff.mp hcall
    have hleft' := h.table.left_beginPut (mapThreadsStep_moves arpHash arpEquals htable) hcap
    refine ⟨_, ⟨task', 9 * C + 10, hset task', hleft', Nat.le_refl _⟩, ?_⟩
    exact Nat.lt_of_lt_of_le (hless C) (Nat.le_add_right _ _)

/-- Steps of other threads are none of them. -/
theorem ArpMoves.others {owner : Nat → UInt32} (hmove : ArpMoves s i task s') (h : s.Ok owner)
    {j : Nat} (hji : j ≠ i) (hw : s.Within C j m) : s'.Within C j m := by
  obtain ⟨task₁, r, hj, hleft, hle⟩ := hw
  have hset : ∀ task', (s.tasks.set i task')[j]? = some task₁ := fun task' => by
    rw [List.getElem?_set_ne (Ne.symm hji), hj]
  have hother : ∀ {e table}, mapThreadsStep arpHash arpEquals s.table e = some table →
      e.thread = i → e.begins j = false → table.Left arpHash arpEquals j r := by
    intro e table htable he hbegins
    obtain ⟨r', hleft', hr'⟩ := h.table.left hleft hbegins htable
    rw [isStep_of_ne (he ▸ Ne.symm hji)] at hr'
    exact hleft'.mono (by simpa using hr')
  cases hmove with
  | apart htable htasks hless => exact ⟨task₁, r, by rw [htasks, hset], htable ▸ hleft, hle⟩
  | inside hcall =>
    obtain ⟨table, htable, rfl⟩ := Option.map_eq_some_iff.mp hcall
    exact ⟨task₁, r, hset _, hother htable rfl rfl, hle⟩
  | beginGet hcall | beginPut hcall =>
    obtain ⟨table, htable, rfl⟩ := Option.map_eq_some_iff.mp hcall
    have hbegins := beq_eq_false_iff_ne.mpr (Ne.symm hji)
    exact ⟨task₁, r, hset _, hother htable rfl hbegins, hle⟩

end Bound

/-! ## The results -/

/-- The event begins a call of thread `i`. -/
def ArpThreadsEvent.begins (i : Nat) : ArpThreadsEvent → Bool
  | .receive j _ | .resolve j _ => j == i
  | .step _ => false

def ArpThreadsEvent.isStep (i : Nat) : ArpThreadsEvent → Bool
  | .receive .. | .resolve .. => false
  | .step j => j == i

/-- The thread has not taken a step yet. -/
def ArpTask.begun : ArpTask → Bool
  | .receive _ .begun | .resolve _ .begun => true
  | .idle | .receive .. | .resolve .. => false

/-- The thread is in a lookup that follows a check. -/
def ArpTask.looking : ArpTask → Bool
  | .receive _ .looking | .resolve _ .looking => true
  | .idle | .receive .. | .resolve .. => false

/-- What the threads can rely on. -/
structure ArpThreads.Served (ip : UInt32) (s : ArpThreads) : Prop where
  /-- A thread in a call can take its next step, or waits for the lock, whose holder can. -/
  runs : ∀ (i : Nat) task, s.tasks[i]? = some task → task.free = false →
    (∃ s', arpThreadsStep ip s (.step i) = some s') ∨ task.locks = true ∧
      ∃ holder s', s.table.owner = some holder ∧ arpThreadsStep ip s (.step holder.1) = some s'
  /-- A lookup that follows a check finds a cell. -/
  finds : ∀ (i : Nat) task ref, s.tasks[i]? = some task → task.looking = true →
    s.returned i = some ref → ∃ c mac, ref = some c ∧ s.cells[c]? = some mac
  /-- When the lock is free, each key in the table is a block of the heap. -/
  heap : s.table.owner = none →
    ∀ key ∈ (s.table.mem.table arpHash arpEquals).usedKeys, s.OnHeap key
  /-- A call takes a bounded number of steps of its own, where the table has at most `C` slots. -/
  bounded : ∀ (i : Nat) task C, s.tasks[i]? = some task → task.begun = true → ∀ es s',
    Guarded (arpThreadsStep ip) ArpGuard s es → run (arpThreadsStep ip) s es = some s' →
    Along (arpThreadsStep ip) (fun s => s.table.mem.capacity ≤ C) s es →
    (∀ e ∈ es, e.begins i = false) → es.countP (ArpThreadsEvent.isStep i) ≤ 13 * C + 24

section Results

variable {s s' : ArpThreads} {ip x : UInt32} {i m C : Nat} {task : ArpTask}
  {owner : Nat → UInt32} {es : List ArpThreadsEvent}

/-- One step, for a thread that began its call before. -/
theorem arpThreadsStep_within {e : ArpThreadsEvent} (h : s.Ok owner) (hguard : ArpGuard s e)
    (hcap : s.table.mem.capacity ≤ C) (hw : s.Within C i m) (hbegins : e.begins i = false)
    (hstep : arpThreadsStep ip s e = some s') :
    ∃ m', s'.Within C i m' ∧ m' + (if e.isStep i then 1 else 0) ≤ m := by
  have hbegun : ∀ {j : Nat} {task}, j ≠ i → s'.table = s.table → s'.tasks = s.tasks.set j task →
      s'.Within C i m := by
    intro j task hji htable htasks
    obtain ⟨task₁, r, hi, hleft, hle⟩ := hw
    exact ⟨task₁, r, by rw [htasks, List.getElem?_set_ne hji, hi], htable ▸ hleft, hle⟩
  cases e with
  | receive j msg =>
    rw [arpThreadsStep] at hstep
    split at hstep
    · obtain rfl := Option.some.inj hstep
      exact ⟨m, hbegun (beq_eq_false_iff_ne.mp hbegins) rfl rfl, Nat.le_refl m⟩
    · cases hstep
  | resolve j x =>
    rw [arpThreadsStep] at hstep
    split at hstep
    · obtain rfl := Option.some.inj hstep
      exact ⟨m, hbegun (beq_eq_false_iff_ne.mp hbegins) rfl rfl, Nat.le_refl m⟩
    · cases hstep
  | step j =>
    obtain ⟨owner', h'⟩ := arpThreadsStep_ok ⟨owner, h⟩ hguard hstep
    obtain ⟨task, hj, hstep⟩ := Option.bind_eq_some_iff.mp hstep
    have hmove := arpTaskStep_moves hstep
    by_cases hji : j = i
    · subst hji
      obtain ⟨task₁, r, hi, hleft, hle⟩ := hw
      cases hi.symm.trans hj
      obtain ⟨m', hw', hm'⟩ := hmove.within h h' hcap hj hleft
      refine ⟨m', hw', ?_⟩
      simp only [ArpThreadsEvent.isStep, beq_self_eq_true, if_true]
      omega
    · refine ⟨m, hmove.others h (Ne.symm hji) hw, ?_⟩
      simp [ArpThreadsEvent.isStep, hji]

theorem ArpThreads.Ok.bounded (h : ∃ owner, s.Ok owner) (hw : s.Within C i m)
    (hg : Guarded (arpThreadsStep ip) ArpGuard s es)
    (hrun : run (arpThreadsStep ip) s es = some s')
    (hcap : Along (arpThreadsStep ip) (fun s => s.table.mem.capacity ≤ C) s es)
    (hbegins : ∀ e ∈ es, e.begins i = false) : es.countP (ArpThreadsEvent.isStep i) ≤ m := by
  induction es generalizing s m with
  | nil => exact Nat.zero_le m
  | cons e es ih =>
    obtain ⟨s₁, hs₁, hrest⟩ := Option.bind_eq_some_iff.mp hrun
    obtain ⟨hge, hg₁⟩ := hg s₁ hs₁
    obtain ⟨owner, hok⟩ := h
    obtain ⟨m', hw', hm'⟩ := arpThreadsStep_within hok hge hcap.1 hw
      (hbegins e List.mem_cons_self) hs₁
    have hle := ih (arpThreadsStep_ok ⟨owner, hok⟩ hge hs₁) hw' hg₁ hrest (hcap.2 s₁ hs₁)
      fun e' he' => hbegins e' (List.mem_cons_of_mem _ he')
    rw [List.countP_cons]
    omega

/-- A thread that has not taken a step yet. -/
theorem ArpThreads.Ok.within_begun (h : s.Ok owner) (hi : s.tasks[i]? = some task)
    (hbegun : task.begun = true) (C : Nat) : s.Within C i (13 * C + 24) := by
  obtain ⟨-, m, hm, huse⟩ := h.task hi
  cases task with
  | idle => cases hbegun
  | receive msg phase =>
    cases phase with
    | begun => exact ⟨_, 0, hi, Or.inl ⟨m, hm, huse⟩, Nat.le_refl _⟩
    | found | looking | copying | absent | allocated | putting | done => cases hbegun
  | resolve x phase =>
    cases phase with
    | begun =>
      refine ⟨_, 0, hi, Or.inl ⟨m, hm, huse⟩, ?_⟩
      simp only [ArpTask.stepsLeft]
      omega
    | found | looking | reading | null => cases hbegun

theorem ArpThreads.Ok.finds (h : s.Ok owner) {ref : CellRef} (hi : s.tasks[i]? = some task)
    (hlooking : task.looking = true) (href : s.returned i = some ref) :
    ∃ c mac, ref = some c ∧ s.cells[c]? = some mac := by
  obtain ⟨-, m, hm, huse⟩ := h.task hi
  have hcell : ∀ {x since phase}, s.table.tasks[i]? = some (.get (stackKey ARP_IPV4 x) since phase) →
      ∃ c mac, ref = some c ∧ s.cells[c]? = some mac := by
    intro x since phase hget
    obtain ⟨-, c, hc, howns⟩ := h.returned hget href
    exact ⟨c, _, hc, List.getElem?_eq_getElem howns.1⟩
  cases task with
  | idle => cases hlooking
  | receive msg phase =>
    cases phase with
    | looking =>
      obtain ⟨since, phase, rfl⟩ := huse
      exact hcell hm
    | begun | found | copying | absent | allocated | putting | done => cases hlooking
  | resolve x phase =>
    cases phase with
    | looking =>
      obtain ⟨since, phase, rfl⟩ := huse
      exact hcell hm
    | begun | found | reading | null => cases hlooking

theorem ArpThreads.Ok.served (h : ∃ owner, s.Ok owner) (ip : UInt32) : s.Served ip := by
  obtain ⟨owner, hok⟩ := h
  exact ⟨fun _ _ hi hbusy => hok.runs ip hi hbusy,
    fun _ _ _ hi hlooking href => hok.finds hi hlooking href,
    fun howner => hok.heap (Or.inl ⟨howner, rfl⟩),
    fun _ _ C hi hbegun _ _ hg hrun hcap hbegins =>
      ArpThreads.Ok.bounded ⟨owner, hok⟩ (hok.within_begun hi hbegun C) hg hrun hcap hbegins⟩

/-- **Every thread gets done.** Any number of threads receive messages and resolve addresses, in any
order of their reads and writes. As long as no expansion overlaps with a lookup, a thread waits for
nothing but `cache_mutex`, whose holder goes on; no `assert` fails and no access goes wrong; a lookup
that follows a check finds a cell; the keys in the table are blocks of the heap, none of the `key` of
a stack that `set_in_arp_cache` passes to `hashmap_put`; and each call takes a bounded number of
steps. -/
theorem arp_threads_progress {cache : ArpCache} (hinit : arpInit = some cache) (ip : UInt32)
    (n : Nat) (es : List ArpThreadsEvent)
    (hg : Guarded (arpThreadsStep ip) ArpGuard (ArpThreads.start cache n) es) :
    Along (arpThreadsStep ip) (ArpThreads.Served ip) (ArpThreads.start cache n) es :=
  along_of_guarded (fun _ h => ArpThreads.Ok.served h ip)
    (fun _ _ _ h hge hs => arpThreadsStep_ok h hge hs) ⟨_, start_threads hinit n⟩ hg

/-- A host shows an address to `10.0.0.1`. -/
def shows (ip : UInt32) (mac : Mac) : ArpMessage :=
  .ipv4 1 mac ip (Vector.replicate 6 0xff) 0x0100000a

/-- `10.0.0.2` is known, and shows another address. Its first byte is copied when thread `2` is in a
lookup of `10.0.0.2`, and thread `3` in the `hashmap_put` of `10.0.0.3`. -/
def updateStarted : List ArpThreadsEvent :=
  .receive 0 (shows 0x0200000a (.replicate 6 2)) :: List.replicate 9 (.step 0) ++
    .receive 1 (shows 0x0200000a (.replicate 6 4)) :: List.replicate 10 (.step 1) ++
    .resolve 2 0x0200000a :: List.replicate 2 (.step 2) ++
    .receive 3 (shows 0x0300000a (.replicate 6 7)) :: List.replicate 4 (.step 3) ++
    List.replicate 3 (.step 2) ++ [.step 1]

/-- How far the threads are then. -/
def updateTasks : List ArpTask :=
  [.receive (shows 0x0200000a (.replicate 6 2)) .done,
    .receive (shows 0x0200000a (.replicate 6 4)) (.copying 0 1), .resolve 0x0200000a .looking,
    .receive (shows 0x0300000a (.replicate 6 7)) .putting]

theorem arp_threads_progress_update :
    ∃ cache s, arpInit = some cache ∧
      run (arpThreadsStep 0x0100000a) (ArpThreads.start cache 4) updateStarted = some s ∧
      s.tasks = updateTasks ∧
      Along (arpThreadsStep 0x0100000a) (ArpThreads.Served 0x0100000a) (ArpThreads.start cache 4)
        updateStarted := by
  have hview : (arpInit.bind fun cache =>
      (run (arpThreadsStep 0x0100000a) (ArpThreads.start cache 4) updateStarted).map fun s =>
        (s.tasks, decide (Guarded (arpThreadsStep 0x0100000a) ArpGuard (ArpThreads.start cache 4)
          updateStarted))) =
      some (updateTasks, true) := by decide +kernel
  obtain ⟨cache, hinit, hrun⟩ := Option.bind_eq_some_iff.mp hview
  obtain ⟨s, hrun, hs⟩ := Option.map_eq_some_iff.mp hrun
  obtain ⟨htasks, hguarded⟩ := Prod.mk.inj hs
  exact ⟨cache, s, hinit, hrun, htasks,
    arp_threads_progress hinit 0x0100000a 4 updateStarted (of_decide_eq_true hguarded)⟩

/-- Each byte that was read for `x` is the byte at its place of an address that a message from `x`
has shown, and where they all show one address, it was read. -/
def ReadsShown (heard : List ArpMessage) (x : UInt32) (bytes : List UInt8) : Prop :=
  (∀ (j : Nat) b, bytes[j]? = some b →
    ∃ msg ∈ heard, msg.From x ∧ msg.srcMac.toList[j]? = some b) ∧
  ∀ mac : Mac, (∀ msg ∈ heard, msg.From x → msg.srcMac = mac) →
    bytes = mac.toList.take bytes.length

/-- **A host that shows one address is reached.** In the same interleavings, each byte that a thread
reads for `x` is the byte at its place of an address that a message from `x` has shown. So where the
messages from `x` show one address, it is read as it is; where they show several, the bytes can be of
different ones. -/
theorem arp_threads_bytes {cache : ArpCache} (hinit : arpInit = some cache) (ip : UInt32) (n : Nat)
    (hg : Guarded (arpThreadsStep ip) ArpGuard (ArpThreads.start cache n) es)
    (hrun : run (arpThreadsStep ip) (ArpThreads.start cache n) es = some s) {cell : Nat}
    {bytes : List UInt8} (hread : s.tasks[i]? = some (.resolve x (.reading cell bytes))) :
    ReadsShown s.heard x bytes := by
  obtain ⟨owner, hok⟩ := (along_of_guarded (fun _ h => h)
    (fun _ _ _ h hge hs => arpThreadsStep_ok h hge hs) ⟨_, start_threads hinit n⟩ hg).last hrun
  obtain ⟨-, hbytes⟩ := (hok.task hread).1
  refine ⟨hbytes, fun mac hone => List.ext_getElem? fun j => ?_⟩
  rw [List.getElem?_take]
  split
  · rename_i hj
    obtain ⟨msg, hmem, hfrom, hb⟩ := hbytes j _ (List.getElem?_eq_getElem hj)
    rw [← hone msg hmem hfrom, hb, List.getElem?_eq_getElem hj]
  · rename_i hj
    exact List.getElem?_eq_none (Nat.le_of_not_lt hj)

/-- After `updateStarted`, thread `2` reads the first byte of the new address and five of the old
one. -/
theorem arp_threads_bytes_torn :
    ∃ cache s, arpInit = some cache ∧
      run (arpThreadsStep 0x0100000a) (ArpThreads.start cache 4)
        (updateStarted ++ List.replicate 11 (.step 2)) = some s ∧
      s.tasks[2]? = some (.resolve 0x0200000a (.reading 0 [4, 2, 2, 2, 2, 2])) ∧
      ReadsShown s.heard 0x0200000a [4, 2, 2, 2, 2, 2] := by
  have hview : (arpInit.bind fun cache =>
      (run (arpThreadsStep 0x0100000a) (ArpThreads.start cache 4)
        (updateStarted ++ List.replicate 11 (.step 2))).map fun s =>
        (s.tasks[2]?, decide (Guarded (arpThreadsStep 0x0100000a) ArpGuard
          (ArpThreads.start cache 4) (updateStarted ++ List.replicate 11 (.step 2))))) =
      some (some (.resolve 0x0200000a (.reading 0 [4, 2, 2, 2, 2, 2])), true) := by
    decide +kernel
  obtain ⟨cache, hinit, hrun⟩ := Option.bind_eq_some_iff.mp hview
  obtain ⟨s, hrun, hs⟩ := Option.map_eq_some_iff.mp hrun
  obtain ⟨hread, hguarded⟩ := Prod.mk.inj hs
  exact ⟨cache, s, hinit, hrun, hread,
    arp_threads_bytes hinit 0x0100000a 4 (of_decide_eq_true hguarded) hrun hread⟩

end Results

end TcpIp
