import TcpIp.Configuration
import TcpIp.Protocols.ArpNetwork

/-!
# The ARP cache over runs of calls

Whatever is called, a call leaves the cache alone or merges one message into it.

* `StackCall.run_message`: this, for each call, also for one that ends the process.
  `stackRun_invariant`: what calls keep holds after a run.
* `resolved_cell_stays`: the pointer that `arp_resolve_ipv4` has returned for an address stays the
  pointer for this address, whatever is called afterwards, and the cell behind it has the entry's
  current value. The table may grow and move in between; the cells do not.
* `cacheOf`, `cache_history`: the entries after a run, from the messages of the run alone.
-/

namespace TcpIp

open Bytes Prog World

/-! ## Calls -/

section Calls

variable {host : ArpHost} {w : World}

/-- The message that `arp_receive` gets in a call, if it is called. -/
def StackCall.message (mem : Obj → Nat → UInt8) : StackCall → Option ArpMessage
  | .processIo input =>
    if bufferType (bufferAfter (mem .rx) input) = ETH_P_ARP then
      some (.ofBytes (bufferAfter (mem .rx) input) 14)
    else none
  | _ => none

/-- What the message of a call, if there is one, does to the cache. -/
def ArpCache.After (ip : UInt32) (cache : ArpCache) (msg : Option ArpMessage) (cache' : ArpCache) :
    Prop :=
  match msg with
  | none => cache' = cache
  | some msg => arpMerge ip msg cache = .ok cache'

theorem processIoBody_cache (hw : w.Up host) (input : ReadResult) :
    w.cache.After host.ip (StackCall.message w.mem (.processIo input))
      (processIoBody input w).2.cache := by
  have hself : w.withRx (w.mem .rx) = w := by simp [World.withRx]
  obtain ⟨-, hcache⟩ := processIoBody_reaction hw (w.mem .rx) input
  rw [hself] at hcache
  unfold StackCall.message
  dsimp only
  generalize bufferAfter (w.mem .rx) input = m at hcache
  rw [hcache]
  by_cases harp : bufferType m = ETH_P_ARP
  · obtain ⟨cache', hmerge, -, -⟩ := hw.valid.exists_merge host.ip (.ofBytes m 14)
    rw [reaction, if_pos harp, if_pos harp, ArpCache.After, hmerge]
    rfl
  · rw [reaction, if_neg harp, if_neg harp]
    show (ite _ _ _ : List Frame × ArpCache).2 = w.cache
    split
    · split
      · rfl
      · rfl
    · rfl

/-- A call keeps the stack up, and merges its message into the cache. -/
theorem StackCall.run_message (hw : w.Up host) (call : StackCall) :
    (call.run w).2.Up host ∧ w.cache.After host.ip (call.message w.mem) (call.run w).2.cache := by
  have hkeep : ∀ {α : Type} {x : M α}, Upkeeps x →
      (x w).2.Up host ∧ (x w).2.cache = w.cache := fun hx =>
    ⟨hw.keep hx, (hx w hw.ready).2.2⟩
  cases call with
  | processIo input => exact ⟨hw.round_snd input, processIoBody_cache hw input⟩
  | arpReply header =>
    obtain ⟨w', hrun, hcache, hserves⟩ := arpReply_serves hw.ready header
    have hrun' : StackCall.run (.arpReply header) w = (.ok (), w') := hrun
    rw [hrun']
    exact ⟨⟨hserves.ready, hserves.host_eq.trans hw.host, by rw [hcache]; exact hw.valid⟩, hcache⟩
  | arpResolveIpv4 ipv4 =>
    exact hkeep ((Upkeeps.arpResolveIpv4 ipv4).bind fun _ => Upkeeps.pure ())
  | ipSendPacket header => exact hkeep (Upkeeps.ipSendPacket header)
  | ipSend dst payload protocol => exact hkeep (Upkeeps.ipSend dst payload protocol)

/-- A call leaves the cache alone or merges a message. -/
theorem StackCall.run_cache (hw : w.Up host) (call : StackCall) :
    (call.run w).2.Up host ∧ ((call.run w).2.cache = w.cache ∨
      ∃ msg, arpMerge host.ip msg w.cache = .ok (call.run w).2.cache) := by
  obtain ⟨hup, hafter⟩ := StackCall.run_message hw call
  refine ⟨hup, ?_⟩
  cases hmsg : call.message w.mem with
  | none =>
    rw [hmsg] at hafter
    exact Or.inl hafter
  | some msg =>
    rw [hmsg] at hafter
    exact Or.inr ⟨msg, hafter⟩

/-- What every call keeps, whatever the memory is that its caller prepared, holds after a run. -/
theorem stackRun_invariant {I : World → Prop} (hmem : ∀ w mem, I w → I { w with mem })
    (hcall : ∀ w (call : StackCall), I w → I (call.run w).2) (h : I w)
    (calls : List ((Obj → Nat → UInt8) × StackCall)) : I (stackRun calls w) := by
  induction calls generalizing w with
  | nil => exact h
  | cons first calls ih =>
    obtain ⟨mem, call⟩ := first
    have h₁ := hcall _ call (hmem w mem h)
    rw [stackRun]
    rcases hrun : call.run { w with mem } with ⟨_ | _, w₂⟩
    · rw [hrun] at h₁
      exact h₁
    · rw [hrun] at h₁
      exact ih h₁

theorem World.Up.withMem (hw : w.Up host) (mem : Obj → Nat → UInt8) :
    World.Up host { w with mem } :=
  ⟨hw.ready, hw.host, hw.valid⟩

theorem stackRun_up (hw : w.Up host) (calls : List ((Obj → Nat → UInt8) × StackCall)) :
    (stackRun calls w).Up host :=
  stackRun_invariant (I := fun w => w.Up host) (fun _ mem h => h.withMem mem)
    (fun _ call h => (StackCall.run_cache h call).1) hw calls

end Calls

/-! ## Cells -/

section Cells

variable {cache cache' : ArpCache}

/-- A message leaves the cell of every entry where it is. -/
theorem arpMerge_cell (hv : cache.Valid) {ip : UInt32} {msg : ArpMessage}
    (hm : arpMerge ip msg cache = .ok cache') {k : KeyRef} {n : Nat}
    (hk : cache.map.lookup k = some (some n)) : cache'.map.lookup k = some (some n) := by
  unfold arpMerge at hm
  split at hm
  · rw [hv.isIn] at hm
    cases hin : (cache.lookup msg.srcIp).isSome with
    | true =>
      -- The entry of the sender is put again with the cell that it has.
      obtain ⟨n', -, hmap, hn', -, -⟩ := hv.exists_cell hin
      have hkey : (stackKey ARP_IPV4 msg.srcIp).val = toKey ARP_IPV4 msg.srcIp := rfl
      obtain ⟨map', hput, -, hlook⟩ := (hv.copy n' msg.srcMac).put hkey
        (by simpa [cacheCopy] using hn') fun k' hk' => hv.inj hk' hmap
      have hset : cache' = { cacheCopy n' msg.srcMac cache with map := map' } := by
        simpa [hin, setInArpCache, hv.get hmap, hput, eq_comm] using hm
      rw [hset]
      show map'.lookup k = _
      rw [hlook]
      split
      · rename_i hkey
        have hsame : cache.map.equals k (stackKey ARP_IPV4 msg.srcIp) = true := by
          rw [hv.equals]
          simp [arpEquals, hkey]
        rw [← hmap, ← hv.sound.lookup_congr hsame, hk]
      · exact hk
    | false =>
      by_cases hip : msg.dstIp = ip
      · -- The new entry has a key that no entry has.
        have hkey : KeyRef.val ⟨.heap cache.keys, toKey ARP_IPV4 msg.srcIp⟩ =
            toKey ARP_IPV4 msg.srcIp := rfl
        obtain ⟨map', hput, -, hlook⟩ := (hv.calloc msg.srcMac).put (n := cache.cells.length) hkey
          (by simp [cacheCalloc]) fun k' hk' => absurd (hv.cell_lt hk') (Nat.lt_irrefl _)
        have hadd : cache' = { cacheCalloc msg.srcMac cache with map := map' } := by
          simpa [hin, hip, addToArpCache, hput, eq_comm] using hm
        rw [hadd]
        show map'.lookup k = _
        rw [hlook, if_neg]
        · exact hk
        · intro hkey
          have hsame : cache.map.equals (stackKey ARP_IPV4 msg.srcIp) k = true := by
            rw [hv.equals]
            simpa [arpEquals, stackKey] using hkey.symm
          have hsome : (cache.map.lookup (stackKey ARP_IPV4 msg.srcIp)).isSome := by
            rw [hv.sound.lookup_congr hsame, hk]
            rfl
          rw [hv.lookup_isSome, hin] at hsome
          cases hsome
      · obtain rfl : cache = cache' := by simpa [hin, hip] using hm
        exact hk
  · rw [← Except.ok.inj hm]
    exact hk

end Cells

/-! ## Pointers -/

/-- The table has the cell for the address. -/
def ArpCache.HasCell (cache : ArpCache) (ip : UInt32) (cell : Nat) : Prop :=
  cache.map.lookup (stackKey ARP_IPV4 ip) = some (some cell)

section Pointers

variable {host : ArpHost} {w w' : World} {x : UInt32} {cell : Nat}

/-- What `arp_resolve_ipv4` returns for an address with a cell. -/
theorem arpResolveIpv4_hasCell (hw : w.Up host) (h : w.cache.HasCell x cell) :
    ∃ mac, w.cache.lookup x = some mac ∧ arpResolveIpv4 x w = (.ok (some cell), w) ∧
      derefMac cell w = (.ok mac, w) := by
  have hlt := hw.valid.cell_lt h
  have hlook : w.cache.lookup x = some w.cache.cells[cell] := by
    rw [ArpCache.lookup, show w.cache.map.lookup (stackKey ARP_IPV4 x) = some (some cell) from h]
    simp [hlt]
  refine ⟨w.cache.cells[cell], hlook, ?_, by simp [derefMac, hlt]⟩
  have hin : isInArpCache ARP_IPV4 x w.cache = some true := by rw [hw.valid.isIn, hlook]; rfl
  unfold arpResolveIpv4
  rw [cacheQuery_bind _ hin, if_pos rfl, cacheQuery, hw.valid.get h]

/-- The pointer that it returns is the cell of the address. -/
theorem hasCell_of_arpResolveIpv4 (hw : w.Up host)
    (hres : arpResolveIpv4 x w = (.ok (some cell), w')) : w' = w ∧ w.cache.HasCell x cell := by
  cases hlook : w.cache.lookup x with
  | none =>
    obtain ⟨_, hmiss, -⟩ := arpResolveIpv4_miss hw.ready hw.valid hlook
    rw [hmiss] at hres
    cases hres
  | some mac =>
    obtain ⟨n, -, hmap, -⟩ := hw.valid.exists_cell
      (show (w.cache.lookup x).isSome by rw [hlook]; rfl)
    obtain ⟨_, -, hhit, -⟩ := arpResolveIpv4_hasCell hw hmap
    rw [hhit] at hres
    cases hres
    exact ⟨rfl, hmap⟩

/-- **A resolved pointer stays good.** After `arp_resolve_ipv4` has returned a cell for an address,
and any calls after that: it returns the same cell again, the cell has the value that the cache has
now for the address, and no other address has the same cell. -/
theorem resolved_cell_stays (hw : w.Reachable host)
    (hres : arpResolveIpv4 x w = (.ok (some cell), w'))
    (calls : List ((Obj → Nat → UInt8) × StackCall)) :
    (∃ mac, (stackRun calls w').cache.lookup x = some mac ∧
      arpResolveIpv4 x (stackRun calls w') = (.ok (some cell), stackRun calls w') ∧
      derefMac cell (stackRun calls w') = (.ok mac, stackRun calls w')) ∧
    ∀ y w'', arpResolveIpv4 y (stackRun calls w') = (.ok (some cell), w'') → y = x := by
  obtain ⟨rfl, hcell⟩ := hasCell_of_arpResolveIpv4 hw.up hres
  obtain ⟨hup, hcell'⟩ := stackRun_invariant
    (I := fun w => w.Up host ∧ w.cache.HasCell x cell)
    (fun _ mem h => ⟨h.1.withMem mem, h.2⟩)
    (fun w call ⟨hup, hcell⟩ => by
      obtain ⟨hup', hsame | ⟨msg, hmerge⟩⟩ := StackCall.run_cache hup call
      · exact ⟨hup', by rw [hsame]; exact hcell⟩
      · exact ⟨hup', arpMerge_cell hup.valid hmerge hcell⟩) ⟨hw.up, hcell⟩ calls
  refine ⟨arpResolveIpv4_hasCell hup hcell', fun y w'' hy => ?_⟩
  obtain ⟨-, hother⟩ := hasCell_of_arpResolveIpv4 hup hy
  exact toKey_inj.mp (hup.valid.inj hother hcell')

end Pointers

/-! ## The entries -/

/-- A message for IPv4 over Ethernet from the address. -/
def ArpMessage.From (x : UInt32) (msg : ArpMessage) : Prop := msg.Supported ∧ msg.srcIp = x

instance (x : UInt32) (msg : ArpMessage) : Decidable (msg.From x) :=
  inferInstanceAs (Decidable (_ ∧ _))

/-- The entry for an address after the messages: what the last message from the address shows, if
one of them was for us. -/
def cacheOf (ip : UInt32) (msgs : List ArpMessage) (x : UInt32) : Option Mac :=
  if ∃ msg ∈ msgs, msg.From x ∧ msg.dstIp = ip then
    ((msgs.filter (·.From x)).getLast?).map ArpMessage.srcMac
  else none

/-- The messages of a run. -/
def stackMessages : List ((Obj → Nat → UInt8) × StackCall) → World → List ArpMessage
  | [], _ => []
  | (mem, call) :: calls, w =>
    (call.message mem).toList ++
      match call.run { w with mem } with
      | (.ok _, w') => stackMessages calls w'
      | (.error _, _) => []

section History

variable {ip : UInt32} {msgs : List ArpMessage} {msg : ArpMessage}

theorem cacheOf_isSome {x : UInt32} :
    (cacheOf ip msgs x).isSome ↔ ∃ msg ∈ msgs, msg.From x ∧ msg.dstIp = ip := by
  unfold cacheOf
  split
  · rename_i h
    obtain ⟨msg, hmem, hfrom, -⟩ := id h
    have hne : msgs.filter (·.From x) ≠ [] :=
      List.ne_nil_of_mem (List.mem_filter.mpr ⟨hmem, by simpa using hfrom⟩)
    exact iff_of_true (by simpa [List.getLast?_isSome] using hne) h
  · rename_i h
    exact iff_of_false (by simp) h

/-- One more message. -/
theorem cacheOf_snoc (x : UInt32) :
    cacheOf ip (msgs ++ [msg]) x =
      if msg.Supported ∧ ((cacheOf ip msgs msg.srcIp).isSome ∨ msg.dstIp = ip) ∧ x = msg.srcIp then
        some msg.srcMac
      else cacheOf ip msgs x := by
  by_cases hfrom : msg.From x
  · obtain ⟨hs, rfl⟩ := id hfrom
    have hlast : ((msgs ++ [msg]).filter (·.From msg.srcIp)).getLast? = some msg := by
      simp [hfrom]
    have hex : (∃ m ∈ msgs ++ [msg], m.From msg.srcIp ∧ m.dstIp = ip) ↔
        (cacheOf ip msgs msg.srcIp).isSome ∨ msg.dstIp = ip := by
      rw [cacheOf_isSome]
      simp [or_and_right, exists_or, hfrom]
    by_cases hnow : (cacheOf ip msgs msg.srcIp).isSome ∨ msg.dstIp = ip
    · rw [if_pos ⟨hs, hnow, rfl⟩, cacheOf, if_pos (hex.mpr hnow), hlast]
      rfl
    · have hnone : cacheOf ip msgs msg.srcIp = none := by
        simpa using fun h => hnow (Or.inl h)
      rw [if_neg (fun h => hnow h.2.1), hnone, cacheOf, if_neg (mt hex.mp hnow)]
  · rw [if_neg fun h => hfrom ⟨h.1, h.2.2.symm⟩]
    simp [cacheOf, hfrom, or_and_right, exists_or]

/-- The messages of the calls are what changes the entries. -/
theorem stackRun_entries {host : ArpHost} {w : World} (hw : w.Up host)
    (h : ∀ x, w.cache.lookup x = cacheOf host.ip msgs x)
    (calls : List ((Obj → Nat → UInt8) × StackCall)) (x : UInt32) :
    (stackRun calls w).cache.lookup x = cacheOf host.ip (msgs ++ stackMessages calls w) x := by
  induction calls generalizing w msgs with
  | nil => rw [stackMessages, List.append_nil]; exact h x
  | cons first calls ih =>
    obtain ⟨mem, call⟩ := first
    have hw₁ := hw.withMem mem
    obtain ⟨hup, hafter⟩ := StackCall.run_message hw₁ call
    have h₁ : ∀ x, (call.run { w with mem }).2.cache.lookup x =
        cacheOf host.ip (msgs ++ (call.message mem).toList) x := by
      intro x
      cases hmsg : call.message mem with
      | none =>
        rw [hmsg] at hafter
        rw [show (call.run { w with mem }).2.cache = w.cache from hafter, Option.toList_none,
          List.append_nil]
        exact h x
      | some msg =>
        rw [hmsg] at hafter
        obtain ⟨cache', hmerge, -, hlook⟩ := hw₁.valid.exists_merge host.ip msg
        obtain rfl : cache' = (call.run { w with mem }).2.cache :=
          Except.ok.inj (hmerge.symm.trans hafter)
        rw [hlook, Option.toList_some, cacheOf_snoc]
        simp only [h]
    rw [stackRun, stackMessages]
    rcases hrun : call.run { w with mem } with ⟨_ | _, w₂⟩
    · rw [hrun] at h₁
      simpa using h₁ x
    · rw [hrun] at hup h₁
      rw [← List.append_assoc]
      exact ih hup h₁

end History

/-- **The table is a function of the messages.** After any calls from the boot of a host, the last of
which may have ended the process: `arp_resolve_ipv4` has a pointer for the addresses from which a
message was for us, and for no other; behind it is what the last message from the address shows,
whoever that one was for. For another address it emits a request. -/
theorem cache_history (mem : Obj → Nat → UInt8) (host : ArpHost)
    (calls : List ((Obj → Nat → UInt8) × StackCall)) :
    ∃ cache, arpInit = some cache ∧
      ∀ w, w = stackRun calls (World.boot mem host cache) →
      ∀ msgs, msgs = stackMessages calls (World.boot mem host cache) →
      ∀ x, (∀ mac, cacheOf host.ip msgs x = some mac ↔
          ∃ cell, arpResolveIpv4 x w = (.ok (some cell), w) ∧ derefMac cell w = (.ok mac, w)) ∧
        (cacheOf host.ip msgs x = none ↔
          ∃ w', arpResolveIpv4 x w = (.ok none, w') ∧ w'.wire = w.wire ++ [host.request x]) := by
  obtain ⟨cache, hinit, hvalid, hempty⟩ := arpInit_spec
  refine ⟨cache, hinit, ?_⟩
  rintro w rfl msgs rfl x
  have hboot : (World.boot mem host cache).Up host := World.Reachable.up (.boot mem hinit)
  have hlook := stackRun_entries hboot
    (show ∀ x, (World.boot mem host cache).cache.lookup x = cacheOf host.ip [] x from
      fun x => hempty x) calls x
  rw [List.nil_append] at hlook
  have hup := stackRun_up hboot calls
  generalize stackRun calls (World.boot mem host cache) = w at hlook hup
  rw [← hlook]
  cases hx : w.cache.lookup x with
  | none =>
    obtain ⟨w', hmiss, -, hserves⟩ := arpResolveIpv4_miss hup.ready hup.valid hx
    have hwire : w'.wire = w.wire ++ [host.request x] := by
      rw [hserves.wire, hup.host]
    refine ⟨fun mac => ⟨fun h => (nomatch h), ?_⟩, iff_of_true rfl ⟨w', hmiss, hwire⟩⟩
    rintro ⟨cell, hhit, -⟩
    rw [hmiss] at hhit
    cases hhit
  | some mac =>
    obtain ⟨cell, hhit, hderef⟩ := arpResolveIpv4_hit hup.valid hx
    refine ⟨fun mac' => ⟨?_, ?_⟩, iff_of_false (by simp) ?_⟩
    · rintro ⟨⟩
      exact ⟨cell, hhit, hderef w rfl⟩
    · rintro ⟨cell', hhit', hderef'⟩
      rw [hhit] at hhit'
      cases hhit'
      rw [hderef w rfl] at hderef'
      exact congrArg some (Except.ok.inj (congrArg Prod.fst hderef'))
    · rintro ⟨w', hmiss, -⟩
      rw [hhit] at hmiss
      cases hmiss

/-- The peer is resolved, and then a request shows another address for it. -/
theorem resolved_cell_stays_peer :
    ∃ (w : World) (cell : Nat), w.Reachable (pairHost true) ∧
      arpResolveIpv4 (pairHost false).ip w = (.ok (some cell), w) ∧
      ∃ calls, derefMac cell (stackRun calls w) = (.ok (sampleMac 7), stackRun calls w) := by
  obtain ⟨w, hw, hlook⟩ := exists_learned (pairHost true) (pairHost false)
  obtain ⟨cell, hres, -⟩ := arpResolveIpv4_hit hw.up.valid hlook
  let msg : ArpMessage :=
    .ipv4 1 (sampleMac 7) (pairHost false).ip BROADCAST (pairHost true).ip
  let frame := ethFrame BROADCAST (sampleMac 7) 0x0806 msg.encode
  obtain ⟨w₁, hrun, -, -, hlook₁⟩ := (hw.up.withMem fun _ _ => 0).receive (fun _ => 0) BROADCAST
    (sampleMac 7) msg
  have hzero : World.withRx { w with mem := fun _ _ => 0 } (fun _ => 0) =
      { w with mem := fun _ _ => 0 } := by
    rw [World.withRx, Function.update_eq_self]
  have hstack : stackRun [(fun _ _ => 0, .processIo (some frame))] w = w₁ := by
    rw [hzero] at hrun
    rw [stackRun, StackCall.run, hrun]
    rfl
  obtain ⟨mac, hmac, -, hderef⟩ := (resolved_cell_stays hw hres
    [(fun _ _ => 0, .processIo (some frame))]).1
  rw [hstack, hlook₁, if_pos ⟨by decide, Or.inr rfl, rfl⟩] at hmac
  obtain rfl : sampleMac 7 = mac := Option.some.inj hmac
  exact ⟨w, cell, hw, hres, _, hderef⟩

end TcpIp
