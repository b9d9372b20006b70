import TcpIp.ProcessIo

/-!
# ARP refines the reception algorithm of RFC 826

A run is any sequence of received ARP frames and calls of `arp_resolve_ipv4`, one at a time, from
`arp_init` on. The thread that receives a frame has its own buffer, so each reception comes with
what that buffer held before. `ArpHost.run` is the same run of the reference machine, over a finite
map. `ArpEvent.refines` is one step, `arpRun_refines` a run from related states.
-/

namespace TcpIp

open Bytes Prog World

/-- A frame that carries an ARP message. -/
structure ArpFrame where
  bytes : Frame
  long : 42 ≤ bytes.length
  type : etherType bytes = 0x0806

inductive ArpEvent where
  /-- A frame arrives for a thread whose receive buffer holds `buffer`. -/
  | receive (buffer : Nat → UInt8) (frame : ArpFrame)
  /-- A call of `arp_resolve_ipv4`. -/
  | resolve (ip : UInt32)

/-- What an event gives: the frames sent, and the address that a call returns. -/
structure ArpOutput where
  frames : List Frame
  resolved : Option Mac
deriving DecidableEq

/-! ## Runs of the code -/

def ArpEvent.run : ArpEvent → M (Option Mac)
  | .receive buffer frame => do
    Prog.modify (·.withRx buffer)
    processIoBody (some frame.bytes)
    return none
  | .resolve ip => do
    match ← arpResolveIpv4 ip with
    | none => return none
    | some cell =>
      let mac ← derefMac cell
      return some mac

/-- Run the events and collect what each gives. -/
def arpRun : List ArpEvent → M (List ArpOutput)
  | [] => return []
  | event :: events => do
    let sent ← Prog.gets (·.wire.length)
    let resolved ← event.run
    let frames ← Prog.gets (·.wire.drop sent)
    let rest ← arpRun events
    return { frames, resolved } :: rest

/-! ## Runs of the reference machine -/

namespace ArpHost

def step (host : ArpHost) : ArpEvent → ArpTable → ArpOutput × ArpTable
  | .receive _ frame, table =>
    (⟨host.replies (.ofFrame frame.bytes), none⟩, host.merge (.ofFrame frame.bytes) table)
  | .resolve ip, table => (⟨host.asks ip table, table.lookup ip⟩, table)

def run (host : ArpHost) : List ArpEvent → ArpTable → List ArpOutput × ArpTable
  | [], table => ([], table)
  | event :: events, table =>
    let (output, table) := host.step event table
    let (rest, table) := host.run events table
    (output :: rest, table)

end ArpHost

/-! ## The simulation -/

/-- The stack of `host` between two events, with the entries of `table` cached. -/
structure World.Tracks (w : World) (host : ArpHost) (table : ArpTable) : Prop where
  ready : w.net.Ready
  host : w.net.host = host
  valid : w.cache.Valid
  lookup : ∀ ip, w.cache.lookup ip = table.lookup ip

variable {host : ArpHost} {table : ArpTable} {w : World}

theorem World.SameStatics.tracks {w' : World} (hs : w.SameStatics w') (h : w.Tracks host table) :
    w'.Tracks host table :=
  ⟨by rw [hs.net]; exact h.ready, by rw [hs.net]; exact h.host, by rw [hs.cache]; exact h.valid,
    by rw [hs.cache]; exact h.lookup⟩

theorem boot_tracks (mem : Obj → Nat → UInt8) (host : ArpHost) :
    ∃ cache, arpInit = some cache ∧ (World.boot mem host cache).Tracks host ∅ := by
  obtain ⟨cache, hinit, hv, hlook⟩ := arpInit_spec
  exact ⟨cache, hinit, netInterfaceStart_ready _ _, rfl, hv, fun ip => by
    rw [Finmap.lookup_empty]; exact hlook ip⟩

/-- The buffer after the read, as the frame has it. -/
theorem deliver_arp (w : World) (frame : ArpFrame) :
    ntohs ((w.deliver (some frame.bytes)).u16 (rxBuffer + 12)) = ETH_P_ARP ∧
      (w.deliver (some frame.bytes)).arpMessage (rxBuffer + 14) = .ofFrame frame.bytes := by
  have hmem : ∀ i, i < 42 → (w.deliver (some frame.bytes)).mem .rx i = frame.bytes.getD i 0 :=
    fun i hi => deliver_mem w (by have := frame.long; omega) (by simp only [BUFLEN]; omega)
  constructor
  · have h12 : (w.deliver (some frame.bytes)).u8 (rxBuffer + 12) = _ := hmem 12 (by decide)
    have h13 : (w.deliver (some frame.bytes)).u8 (rxBuffer + 12 + 1) = _ := hmem 13 (by decide)
    unfold u16
    rw [h12, h13, ntohs, swap16_le16]
    exact frame.type
  · exact ArpMessage.ofBytes_congr fun i _ hi => hmem i hi

/-- One event on related states. -/
theorem ArpEvent.refines (event : ArpEvent) (h : w.Tracks host table) :
    ∃ w', event.run w = (.ok (host.step event table).1.resolved, w') ∧
      w'.wire = w.wire ++ (host.step event table).1.frames ∧
      w'.Tracks host (host.step event table).2 := by
  obtain ⟨hr, rfl, hv, hlook⟩ := h
  cases event with
  | receive buffer frame =>
    obtain ⟨ht, hmsg⟩ := deliver_arp (w.withRx buffer) frame
    obtain ⟨cache', hm, hv', hlook'⟩ := hv.merge hlook w.net.host (.ofFrame frame.bytes)
    rw [← hmsg] at hm
    obtain ⟨w', hrun, rfl, hserves⟩ := processIoBody_arp (w := w.withRx buffer) hr ht hm
    rw [hmsg] at hserves
    have hserves := hserves.start (w := w) rfl rfl
    refine ⟨w', ?_, hserves.wire, hserves.ready, hserves.host_eq, hv', hlook'⟩
    exact bind_ok hrun
  | resolve ip =>
    cases hip : w.cache.lookup ip with
    | none =>
      have hnone := (hlook ip).symm.trans hip
      have hmem : ip ∉ table := by rwa [← Finmap.lookup_eq_none]
      obtain ⟨w', hrun, hcache, hserves⟩ := arpResolveIpv4_miss hr hv hip
      refine ⟨w', ?_, ?_, hserves.ready, hserves.host_eq, by rwa [hcache], by rwa [hcache]⟩
      · exact (bind_ok hrun).trans (by rw [ArpHost.step, hnone]; rfl)
      · rw [hserves.wire, ArpHost.step, ArpHost.asks, if_neg hmem]
    | some mac =>
      have hsome := (hlook ip).symm.trans hip
      have hmem : ip ∈ table := Finmap.mem_of_lookup_eq_some hsome
      obtain ⟨cell, hrun, hderef⟩ := arpResolveIpv4_hit hv hip
      refine ⟨w, ?_, ?_, hr, rfl, hv, hlook⟩
      · rw [ArpHost.step, hsome]
        exact (bind_ok hrun).trans (bind_ok (hderef w rfl))
      · rw [ArpHost.step, ArpHost.asks, if_pos hmem, List.append_nil]

/-- A run on related states. -/
theorem arpRun_refines (events : List ArpEvent) {table : ArpTable} {w : World}
    (h : w.Tracks host table) :
    ∃ w', arpRun events w = (.ok (host.run events table).1, w') ∧
      w'.wire = w.wire ++ (host.run events table).1.flatMap (·.frames) ∧
      w'.Tracks host (host.run events table).2 := by
  induction events generalizing table w with
  | nil => exact ⟨w, rfl, by simp [ArpHost.run], h⟩
  | cons event events ih =>
    obtain ⟨w₁, hrun, hwire, h₁⟩ := event.refines h
    obtain ⟨w₂, hrun', hwire', h₂⟩ := ih h₁
    refine ⟨w₂, ?_, ?_, h₂⟩
    · unfold arpRun
      rw [gets_bind, bind_ok hrun, gets_bind, bind_ok hrun', hwire, List.drop_left]
      rfl
    · rw [hwire', hwire, List.append_assoc]
      rfl

/-- Every frame of the reference machine has 42 bytes. -/
theorem ArpHost.step_length (event : ArpEvent) {frame : Frame}
    (h : frame ∈ (host.step event table).1.frames) : frame.length = 42 := by
  cases event with
  | receive buffer frame =>
    simp only [step, replies] at h
    split at h
    · rw [List.mem_singleton.mp h, length_ethFrame, ArpMessage.length_encode]
    · cases h
  | resolve ip =>
    simp only [step, asks] at h
    split at h
    · cases h
    · rw [List.mem_singleton.mp h, request, length_ethFrame, ArpMessage.length_encode]

theorem ArpHost.run_length (events : List ArpEvent) {table : ArpTable} {frame : Frame}
    (h : frame ∈ (host.run events table).1.flatMap (·.frames)) : frame.length = 42 := by
  induction events generalizing table with
  | nil => simp [run] at h
  | cons event events ih =>
    unfold run at h
    rw [List.flatMap_cons, List.mem_append] at h
    rcases h with h | h
    · exact step_length event h
    · exact ih h

/-- **ARP refines the reference machine.** From `arp_init`, a run of the code returns what the
reference machine gives for each event (frames and resolved addresses), puts these frames on the
wire, each of 42 bytes, and leaves a cache with the entries of the machine's table. -/
theorem arp_refines_rfc826 (mem : Obj → Nat → UInt8) (host : ArpHost) (events : List ArpEvent) :
    ∃ cache, arpInit = some cache ∧
      ∃ w', arpRun events (World.boot mem host cache) = (.ok (host.run events ∅).1, w') ∧
        w'.wire = (host.run events ∅).1.flatMap (·.frames) ∧
        (∀ frame ∈ w'.wire, frame.length = 42) ∧
        w'.cache.Represents (host.run events ∅).2 := by
  obtain ⟨cache, hinit, h⟩ := boot_tracks mem host
  obtain ⟨w', hrun, hwire, h'⟩ := arpRun_refines events h
  refine ⟨cache, hinit, w', hrun, hwire, fun frame hf => ?_, h'.valid.represents h'.lookup⟩
  rw [hwire] at hf
  exact ArpHost.run_length events hf

end TcpIp
