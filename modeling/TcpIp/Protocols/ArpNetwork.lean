import TcpIp.Protocols.ArpRefine

/-!
# ARP safety across a network

Any number of hosts run the stack, each with its own addresses. A host resolves an address, or
handles a frame that some host sent earlier; nothing is said of the order, so frames are delayed,
lost, duplicated and delivered to any of the hosts. A network is the state of each host: the frames
sent so far are on the hosts' wires.

`ArpNetwork.Truthful` is the invariant: every table and every frame on a wire speaks the truth about
its sender. It holds at boot and every step keeps it, because a step of the code is a step of the
reference machine (`ArpEvent.refines`).
-/

namespace TcpIp

open Bytes Prog World

/-- The state of each host. -/
abbrev ArpNetwork (ι : Type) := ι → World

variable {ι : Type}

/-- An entry of a table is true if a host has these addresses. -/
def ArpTable.True (host : ι → ArpHost) (table : ArpTable) : Prop :=
  ∀ ip mac, table.lookup ip = some mac → ∃ j, host j = ⟨ip, mac⟩

/-- A frame with an ARP message that names a host as its sender. -/
structure HonestFrame (host : ι → ArpHost) (frame : Frame) : Prop where
  long : 42 ≤ frame.length
  type : etherType frame = 0x0806
  sender : ∃ j, host j = ⟨(ArpMessage.ofFrame frame).srcIp, (ArpMessage.ofFrame frame).srcMac⟩

/-- What a host sends about itself is honest. -/
theorem honestFrame_ipv4 (host : ι → ArpHost) (i : ι) (dst dstMac : Mac) (opcode : UInt16)
    (dstIp : UInt32) :
    HonestFrame host (ethFrame dst (host i).mac 0x0806
      (ArpMessage.ipv4 opcode (host i).mac (host i).ip dstMac dstIp).encode) := by
  refine ⟨?_, etherType_ethFrame _ _ _ _, i, ?_⟩
  · rw [length_ethFrame, ArpMessage.length_encode]
  · rw [ArpMessage.ofFrame_ethFrame]
    rfl

/-- A step of the reference machine on an honest frame, or a resolution, keeps the table true and
sends honest frames. -/
theorem ArpHost.step_true {host : ι → ArpHost} {i : ι} {table : ArpTable} {event : ArpEvent}
    (htable : table.True host)
    (hevent : ∀ buffer frame, event = .receive buffer frame → HonestFrame host frame.bytes) :
    ((host i).step event table).2.True host ∧
      ∀ frame ∈ ((host i).step event table).1.frames, HonestFrame host frame := by
  cases event with
  | receive buffer frame =>
    obtain ⟨j, hj⟩ := (hevent _ _ rfl).sender
    refine ⟨fun ip mac hlook => ?_, fun f hf => ?_⟩
    · unfold step at hlook
      rw [ArpHost.lookup_merge] at hlook
      split at hlook
      · rename_i h
        exact ⟨j, by rw [hj, h.2.2, Option.some.inj hlook]⟩
      · exact htable ip mac hlook
    · simp only [step, replies] at hf
      split at hf
      · rw [List.mem_singleton.mp hf]
        exact honestFrame_ipv4 host i _ _ _ _
      · cases hf
  | resolve ip =>
    refine ⟨htable, fun f hf => ?_⟩
    simp only [step, asks] at hf
    split at hf
    · cases hf
    · rw [List.mem_singleton.mp hf]
      exact honestFrame_ipv4 host i _ _ _ _

/-- The networks that the hosts can reach. -/
inductive ArpNetwork.Reachable [DecidableEq ι] (host : ι → ArpHost) : ArpNetwork ι → Prop where
  /-- Every cache is empty. -/
  | boot (mem : ι → Obj → Nat → UInt8) {cache : ArpCache} (h : arpInit = some cache) :
      Reachable host fun i => World.boot (mem i) (host i) cache
  /-- Host `i` calls `arp_resolve_ipv4`. -/
  | resolve {net : ArpNetwork ι} (i : ι) (ip : UInt32) (h : Reachable host net) :
      Reachable host (Function.update net i (arpResolveIpv4 ip (net i)).2)
  /-- A thread of host `i`, whose buffer holds `buffer`, receives a frame that `j` sent. -/
  | deliver {net : ArpNetwork ι} (i j : ι) (buffer : Nat → UInt8) {frame : Frame}
      (h : Reachable host net) (hsent : frame ∈ (net j).wire) :
      Reachable host
        (Function.update net i (processIoBody (some frame) ((net i).withRx buffer)).2)

/-- Every table and every frame on a wire is true. -/
structure ArpNetwork.Truthful (host : ι → ArpHost) (net : ArpNetwork ι) : Prop where
  table : ∀ i, ∃ table : ArpTable, (net i).Tracks (host i) table ∧ table.True host
  wire : ∀ i, ∀ frame ∈ (net i).wire, HonestFrame host frame

/-! An event leaves a host where the call in it does. -/

theorem ArpEvent.receive_snd (buffer : Nat → UInt8) (frame : ArpFrame) (w : World) :
    ((ArpEvent.receive buffer frame).run w).2 =
      (processIoBody (some frame.bytes) (w.withRx buffer)).2 :=
  bind_snd (fun _ _ => rfl) (w.withRx buffer)

theorem ArpEvent.resolve_snd (ip : UInt32) (w : World) :
    ((ArpEvent.resolve ip).run w).2 = (arpResolveIpv4 ip w).2 :=
  bind_snd (fun cell _ => by cases cell <;> rfl) w

variable {host : ι → ArpHost} {net : ArpNetwork ι}

theorem ArpNetwork.boot_truthful (mem : ι → Obj → Nat → UInt8) {cache : ArpCache}
    (h : arpInit = some cache) : Truthful host fun i => World.boot (mem i) (host i) cache := by
  refine ⟨fun i => ?_, fun i frame hf => by cases hf⟩
  obtain ⟨cache', hinit, htracks⟩ := boot_tracks (mem i) (host i)
  obtain rfl : cache = cache' := Option.some.inj (h.symm.trans hinit)
  exact ⟨∅, htracks, fun ip mac hlook => by simp at hlook⟩

section Steps

variable [DecidableEq ι]

/-- An event of one host keeps the network truthful. -/
theorem ArpNetwork.Truthful.step (h : net.Truthful host) (i : ι) (event : ArpEvent)
    (hevent : ∀ buffer frame, event = .receive buffer frame → HonestFrame host frame.bytes) :
    Truthful host (Function.update net i (event.run (net i)).2) := by
  obtain ⟨table, htracks, htrue⟩ := h.table i
  obtain ⟨w', hrun, hwire, htracks'⟩ := event.refines htracks
  obtain ⟨htrue', hhonest⟩ := ArpHost.step_true (i := i) htrue hevent
  rw [hrun]
  refine ⟨fun k => ?_, fun k frame hf => ?_⟩
  · by_cases hk : k = i
    · subst hk
      exact ⟨_, by rwa [Function.update_self], htrue'⟩
    · rw [Function.update_of_ne hk]
      exact h.table k
  · by_cases hk : k = i
    · subst hk
      rw [Function.update_self, hwire, List.mem_append] at hf
      rcases hf with hf | hf
      · exact h.wire k frame hf
      · exact hhonest frame hf
    · rw [Function.update_of_ne hk] at hf
      exact h.wire k frame hf

theorem ArpNetwork.Reachable.truthful (h : Reachable host net) : net.Truthful host := by
  induction h with
  | boot mem hinit => exact boot_truthful mem hinit
  | resolve i ip _ ih =>
    have hstep := ih.step i (.resolve ip) (by simp)
    rwa [ArpEvent.resolve_snd] at hstep
  | deliver i j buffer _ hsent ih =>
    have hhonest := ih.wire j _ hsent
    have hstep := ih.step i (.receive buffer ⟨_, hhonest.long, hhonest.type⟩)
      fun _ _ he => by cases he; exact hhonest
    rwa [ArpEvent.receive_snd] at hstep

/-- **ARP safety.** When `arp_resolve_ipv4` finds an address in the cache of a host, the address is
that of exactly one host, and the cell holds the MAC address of that host. -/
theorem arp_network_safe (hip : Function.Injective fun i => (host i).ip)
    (h : ArpNetwork.Reachable host net) {i : ι} {x : UInt32} {cell : Nat} {w' : World}
    (hres : arpResolveIpv4 x (net i) = (.ok (some cell), w')) :
    ∃ j, (host j).ip = x ∧ (∀ k, (host k).ip = x → k = j) ∧
      derefMac cell w' = (.ok (host j).mac, w') := by
  obtain ⟨table, htracks, htrue⟩ := h.truthful.table i
  cases hlook : (net i).cache.lookup x with
  | none =>
    obtain ⟨_, hmiss, -⟩ := arpResolveIpv4_miss htracks.ready htracks.valid hlook
    rw [hmiss] at hres
    cases hres
  | some mac =>
    obtain ⟨cell', hhit, hderef⟩ := arpResolveIpv4_hit htracks.valid hlook
    rw [hhit] at hres
    cases hres
    obtain ⟨j, hj⟩ := htrue x mac (by rw [← htracks.lookup, hlook])
    have hjip : (host j).ip = x := by rw [hj]
    refine ⟨j, hjip, fun k hk => hip (hk.trans hjip.symm), ?_⟩
    rw [hderef _ rfl, hj]

end Steps

/-- Two hosts. -/
def pairHost : Bool → ArpHost
  | false => ⟨0x0100000a, sampleMac 1⟩
  | true => ⟨0x0200000a, sampleMac 2⟩

/-- The first host asks for the second, which hears the request and learns the first one's
address. -/
theorem arp_network_safe_pair :
    Function.Injective (fun i => (pairHost i).ip) ∧
      ∃ net cell w', ArpNetwork.Reachable pairHost net ∧
        arpResolveIpv4 0x0100000a (net true) = (.ok (some cell), w') ∧
        ∃ j, (pairHost j).ip = 0x0100000a ∧ (∀ k, (pairHost k).ip = 0x0100000a → k = j) ∧
          derefMac cell w' = (.ok (pairHost j).mac, w') := by
  have hip : Function.Injective (fun i => (pairHost i).ip) := by decide
  obtain ⟨cache, hinit, -⟩ := arpInit_spec
  have htracks : ∀ i, (World.boot (fun _ _ => 0) (pairHost i) cache).Tracks (pairHost i) ∅ := by
    intro i
    obtain ⟨cache', hinit', h⟩ := boot_tracks (fun _ _ => 0) (pairHost i)
    rwa [Option.some.inj (hinit.symm.trans hinit')]
  have h₀ : ArpNetwork.Reachable pairHost _ := .boot (fun _ _ _ => 0) hinit
  -- The request is on the first host's wire.
  have h₁ := h₀.resolve false 0x0200000a
  obtain ⟨w₁, hrun₁, hwire₁, -⟩ := (ArpEvent.resolve 0x0200000a).refines (htracks false)
  rw [← ArpEvent.resolve_snd, hrun₁] at h₁
  have hsent : (pairHost false).request 0x0200000a ∈ w₁.wire := by
    rw [hwire₁, ArpHost.step, ArpHost.asks, if_neg Finmap.notMem_empty]
    exact List.mem_singleton_self _
  -- The second host hears it.
  let heard : ArpFrame := ⟨(pairHost false).request 0x0200000a, by decide, by decide⟩
  have h₂ := h₁.deliver true false (fun _ => 0)
    (show heard.bytes ∈ _ by rwa [Function.update_self])
  obtain ⟨w₂, hrun₂, -, htracks₂⟩ := (ArpEvent.receive (fun _ => 0) heard).refines (htracks true)
  rw [Function.update_of_ne (by decide), ← ArpEvent.receive_snd,
    hrun₂] at h₂
  have hlook : w₂.cache.lookup 0x0100000a = some (pairHost false).mac := by
    rw [htracks₂.lookup, ArpHost.step, ArpHost.lookup_merge, if_pos (by decide)]
    decide
  obtain ⟨cell, hhit, -⟩ := arpResolveIpv4_hit htracks₂.valid hlook
  refine ⟨hip, _, cell, w₂, h₂, ?_, arp_network_safe hip h₂ (i := true) ?_⟩
  · rwa [Function.update_self]
  · rwa [Function.update_self]

end TcpIp
