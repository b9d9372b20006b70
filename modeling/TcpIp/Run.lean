import TcpIp.ProcessIo
import TcpIp.Protocols.ArpRefine

/-!
# Reachable states of the stack

`World.Reachable` is any use of the stack, one call at a time: rounds of the receive loop with any
result of the read and any leftover in the buffer, calls of `arp_resolve_ipv4` and calls of
`ip_send`. `World.Up` holds in every such state: the interface is ready, it has its addresses, and
the cache is valid.

The IPv4 side leaves the cache alone whatever the packet holds (also for lengths that take it past
the end of the buffer). That is shown for the code's parts with `Prog.Keeps`, without executing
them.
-/

namespace TcpIp

open Bytes Prog World

/-! ## What the IPv4 side keeps -/

/-- The interface stays ready and has its addresses, and the cache is the same. -/
def World.Upkeep (w w' : World) : Prop :=
  w.net.Ready → w'.net.Ready ∧ w'.net.host = w.net.host ∧ w'.cache = w.cache

theorem World.Upkeep.refl (w : World) : w.Upkeep w := fun hr => ⟨hr, rfl, rfl⟩

theorem World.Upkeep.trans {w w' w'' : World} (h : w.Upkeep w') (h' : w'.Upkeep w'') :
    w.Upkeep w'' := by
  intro hr
  obtain ⟨hr', hhost, hcache⟩ := h hr
  obtain ⟨hr'', hhost', hcache'⟩ := h' hr'
  exact ⟨hr'', hhost'.trans hhost, hcache'.trans hcache⟩

/-- The code keeps the interface up and leaves the cache alone. -/
abbrev Upkeeps {α : Type} (x : M α) : Prop := Keeps World.Upkeep x

namespace Upkeeps

variable {α β : Type}

theorem bind {x : M α} {f : α → M β} (hx : Upkeeps x) (hf : ∀ a, Upkeeps (f a)) :
    Upkeeps (x >>= f) :=
  Keeps.bind (R := World.Upkeep) (fun h h' => h.trans h') hx hf

theorem of_silent {x : M α} (h : Silent x) : Upkeeps x := by
  intro w hr
  obtain ⟨a, w', hrun, hs⟩ := h w
  rw [hrun]
  exact ⟨by rwa [hs.net], by rw [hs.net], hs.cache⟩

theorem pure (a : α) : Upkeeps (Pure.pure a) := Keeps.pure World.Upkeep.refl a

theorem stop (e : Stop) : Upkeeps (Prog.stop e : M α) := Keeps.stop World.Upkeep.refl e

theorem gets (f : World → α) : Upkeeps (Prog.gets f) := Keeps.gets World.Upkeep.refl f

theorem callocObj (o : Obj) : Upkeeps (TcpIp.callocObj o) := fun _ hr => ⟨hr, rfl, rfl⟩

theorem cacheQuery (f : ArpCache → Option α) : Upkeeps (TcpIp.cacheQuery f) := by
  intro w hr
  unfold TcpIp.cacheQuery
  split
  · exact ⟨hr, rfl, rfl⟩
  · exact ⟨hr, rfl, rfl⟩

theorem netInterfaceSend (content : Ptr) {len : Nat} (hlen : len + 14 < 2 ^ 32) (dstMac : Mac)
    (protocol : UInt16) : Upkeeps (TcpIp.netInterfaceSend content len dstMac protocol) := by
  intro w hr
  obtain ⟨w', hrun, hserves, hcache, -⟩ := netInterfaceSend_spec hr content hlen dstMac protocol
  rw [hrun]
  exact ⟨hserves.ready, hserves.host_eq, hcache⟩

theorem loadU8 (p : Ptr) : Upkeeps (TcpIp.loadU8 p) := of_silent (.loadU8 p)

theorem loadU16 (p : Ptr) : Upkeeps (TcpIp.loadU16 p) := of_silent (.loadU16 p)

theorem loadU32 (p : Ptr) : Upkeeps (TcpIp.loadU32 p) := of_silent (.loadU32 p)

theorem loadBytes (p : Ptr) (n : Nat) : Upkeeps (TcpIp.loadBytes p n) := of_silent (.loadBytes p n)

theorem storeBytes (p : Ptr) (l : List UInt8) : Upkeeps (TcpIp.storeBytes p l) :=
  of_silent (.storeBytes p l)

theorem touch (p : Ptr) (n : Nat) : Upkeeps (TcpIp.touch p n) := of_silent (.touch p n)

theorem arpResolveIpv4 (ip : UInt32) : Upkeeps (TcpIp.arpResolveIpv4 ip) := by
  refine (cacheQuery _).bind fun inCache => Keeps.ite (cacheQuery _) (bind ?_ fun _ => pure _)
  intro w hr
  obtain ⟨w', hrun, hcache, hserves⟩ := arpRequest_spec hr ip
  rw [hrun]
  exact ⟨hserves.ready, hserves.host_eq, hcache⟩

theorem ipSendPacket (header : Ptr) : Upkeeps (TcpIp.ipSendPacket header) := by
  refine (loadU32 _).bind fun dst => (loadU16 _).bind fun len =>
    (arpResolveIpv4 _).bind fun cell => ?_
  cases cell with
  | none => exact (touch _ _).bind fun _ => stop _
  | some cell =>
    have hlen := len.toNat_lt
    have hswap : ∀ w : World, w.Upkeep (w.ipNtoh header) := fun w hr => ⟨hr, rfl, rfl⟩
    have hsum : Upkeeps (ipHeaderUpdateChecksum header) :=
      (storeBytes _ _).bind fun _ => (loadBytes _ _).bind fun _ => storeBytes _ _
    exact bind hswap fun _ => hsum.bind fun _ => (gets _).bind fun mac =>
      netInterfaceSend _ (by omega) _ _

theorem icmpReceive (ipHeader : Ptr) : Upkeeps (TcpIp.icmpReceive ipHeader) := by
  have hecho : Upkeeps (receiveEchoRequest ipHeader (ipHeader + 20)) :=
    (loadU16 _).bind fun _ => (storeBytes _ _).bind fun _ => (storeBytes _ _).bind fun _ =>
      (loadBytes _ _).bind fun _ => (storeBytes _ _).bind fun _ => (loadU32 _).bind fun _ =>
        (storeBytes _ _).bind fun _ => (gets _).bind fun _ => (storeBytes _ _).bind fun _ =>
          ipSendPacket ipHeader
  refine (loadU16 _).bind fun len => bind ((loadBytes _ _).bind fun _ => pure _) fun valid =>
    Keeps.ite ?_ (pure ())
  exact (loadU8 _).bind fun type => Keeps.ite hecho (touch _ _)

/-- `ip_receive` leaves the cache alone, whatever it receives. -/
theorem ipReceive (ethHeader : Ptr) : Upkeeps (TcpIp.ipReceive ethHeader) := by
  have hntoh : ∀ w : World, w.Upkeep (w.ipNtoh (ethHeader + 14)) := fun w hr => ⟨hr, rfl, rfl⟩
  have htcp : Upkeeps (tcpReceive (ethHeader + 14)) := of_silent (tcpReceive_silent _)
  refine bind ((loadBytes _ _).bind fun _ => pure _) fun valid => Keeps.ite ?_ ?_
  · refine bind hntoh fun _ => (loadU8 _).bind fun protocol => ?_
    exact Keeps.ite (htcp.bind fun _ => pure ()) (Keeps.ite (touch _ _)
      (Keeps.ite (icmpReceive _) (touch _ _)))
  · exact (touch _ _).bind fun _ => touch _ _

theorem ipSend (dst : UInt32) (payload : List UInt8) (protocol : UInt32) :
    Upkeeps (TcpIp.ipSend dst payload protocol) := by
  have halloc : ∀ len, Upkeeps (ipHeaderAlloc len) := fun len =>
    (callocObj _).bind fun _ => (storeBytes _ _).bind fun _ => (storeBytes _ _).bind fun _ =>
      (storeBytes _ _).bind fun _ => (storeBytes _ _).bind fun _ => (storeBytes _ _).bind fun _ =>
        (storeBytes _ _).bind fun _ => (storeBytes _ _).bind fun _ =>
          (storeBytes _ _).bind fun _ => (storeBytes _ _).bind fun _ =>
            (storeBytes _ _).bind fun _ => (loadBytes _ _).bind fun _ => storeBytes _ _
  exact (halloc _).bind fun _ => (storeBytes _ _).bind fun _ => (gets _).bind fun _ =>
    (storeBytes _ _).bind fun _ => (storeBytes _ _).bind fun _ => (storeBytes _ _).bind fun _ =>
      ipSendPacket _

end Upkeeps

/-! ## Reachable states -/

/-- The stack of `host`, used by one thread after another. -/
inductive World.Reachable (host : ArpHost) : World → Prop where
  /-- `net_interface_init` and `arp_init`. -/
  | boot (mem : Obj → Nat → UInt8) {cache : ArpCache} (h : arpInit = some cache) :
      Reachable host (World.boot mem host cache)
  /-- A round of the loop of `process_io` that returns. -/
  | round {w w' : World} (buffer : Nat → UInt8) (input : ReadResult) (h : Reachable host w)
      (hrun : processIoBody input (w.withRx buffer) = (.ok (), w')) : Reachable host w'
  /-- A call of `arp_resolve_ipv4`. -/
  | resolve {w w' : World} {cell : CellRef} (ip : UInt32) (h : Reachable host w)
      (hrun : arpResolveIpv4 ip w = (.ok cell, w')) : Reachable host w'
  /-- A call of `ip_send` that returns. -/
  | send {w w' : World} (dst : UInt32) (payload : List UInt8) (protocol : UInt32)
      (h : Reachable host w) (hrun : ipSend dst payload protocol w = (.ok (), w')) :
      Reachable host w'

/-- The stack of `host` between two calls. -/
structure World.Up (host : ArpHost) (w : World) : Prop where
  ready : w.net.Ready
  host : w.net.host = host
  valid : w.cache.Valid

section Up

variable {host : ArpHost} {w w' : World}

theorem World.Up.keep (h : w.Up host) {α : Type} {x : M α} (hx : Upkeeps x) : (x w).2.Up host := by
  obtain ⟨hr, hhost, hcache⟩ := hx w h.ready
  exact ⟨hr, hhost.trans h.host, by rw [hcache]; exact h.valid⟩

theorem World.Up.withRx (h : w.Up host) (buffer : Nat → UInt8) : (w.withRx buffer).Up host :=
  ⟨h.ready, h.host, h.valid⟩

theorem World.SameStatics.up (hs : w.SameStatics w') (h : w.Up host) : w'.Up host :=
  ⟨by rw [hs.net]; exact h.ready, by rw [hs.net]; exact h.host, by rw [hs.cache]; exact h.valid⟩

/-- A round leaves the stack up, also one that ends the process. -/
theorem World.Up.round_snd (h : w.Up host) (input : ReadResult) :
    (processIoBody input w).2.Up host := by
  by_cases harp : ntohs ((w.deliver input).u16 (rxBuffer + 12)) = ETH_P_ARP
  · obtain ⟨cache', hm, hv', -⟩ := h.valid.exists_merge w.net.ip
      ((w.deliver input).arpMessage (rxBuffer + 14))
    obtain ⟨w'', hrun', rfl, hserves⟩ := processIoBody_arp h.ready harp hm
    rw [hrun']
    exact ⟨hserves.ready, hserves.host_eq.trans h.host, hv'⟩
  · by_cases hip : ntohs ((w.deliver input).u16 (rxBuffer + 12)) = ETH_P_IP
    · have hup : ((w.deliver input).ethNtoh.touch (rxBuffer + 12) 2).Up host :=
        ⟨by simpa using h.ready, by simpa using h.host, by simpa using h.valid⟩
      have hkeep := hup.keep ((Upkeeps.ipReceive rxBuffer).bind fun _ => Upkeeps.pure ())
      rwa [← processIoBody_ip h.ready hip] at hkeep
    · obtain ⟨w'', hrun', hs⟩ := processIoBody_other h.ready harp hip
      rw [hrun']
      exact hs.up h

/-- A round that returns leaves the stack up. -/
theorem World.Up.round (h : w.Up host) {input : ReadResult}
    (hrun : processIoBody input w = (.ok (), w')) : w'.Up host := by
  have hup := h.round_snd input
  rwa [hrun] at hup

/-- Every reachable state is up. -/
theorem World.Reachable.up (h : w.Reachable host) : w.Up host := by
  induction h with
  | boot mem hinit =>
    obtain ⟨cache, hinit', htracks⟩ := boot_tracks mem host
    rw [hinit] at hinit'
    cases hinit'
    exact ⟨htracks.ready, htracks.host, htracks.valid⟩
  | round buffer input _ hrun ih => exact (ih.withRx buffer).round hrun
  | resolve ip _ hrun ih =>
    have hkeep := ih.keep (Upkeeps.arpResolveIpv4 ip)
    rwa [hrun] at hkeep
  | send dst payload protocol _ hrun ih =>
    have hkeep := ih.keep (Upkeeps.ipSend dst payload protocol)
    rwa [hrun] at hkeep

/-- A round with a frame that carries an ARP message. -/
theorem World.Up.receive (h : w.Up host) (buffer : Nat → UInt8) (dst src : Mac) (msg : ArpMessage) :
    ∃ w', processIoBody (some (ethFrame dst src 0x0806 msg.encode)) (w.withRx buffer) = (.ok (), w') ∧
      w'.Up host ∧ w'.wire = w.wire ++ host.replies msg ∧
      ∀ ip, w'.cache.lookup ip =
        if msg.Supported ∧ ((w.cache.lookup msg.srcIp).isSome ∨ msg.dstIp = host.ip) ∧
          ip = msg.srcIp then some msg.srcMac
        else w.cache.lookup ip := by
  let frame : ArpFrame := ⟨ethFrame dst src 0x0806 msg.encode, by
    rw [length_ethFrame, ArpMessage.length_encode], etherType_ethFrame _ _ _ _⟩
  obtain ⟨ht, hmsg⟩ := deliver_arp (w.withRx buffer) frame
  have hframe : ArpMessage.ofFrame frame.bytes = msg := ArpMessage.ofFrame_ethFrame _ _ _ _
  obtain ⟨cache', hm, hv', hlook⟩ := h.valid.exists_merge w.net.ip msg
  rw [← hframe, ← hmsg] at hm
  obtain ⟨w', hrun, hcache, hserves⟩ := processIoBody_arp (w := w.withRx buffer) h.ready ht hm
  have hip : w.net.ip = host.ip := congrArg ArpHost.ip h.host
  refine ⟨w', hrun, ⟨hserves.ready, hserves.host_eq.trans h.host, by rw [hcache]; exact hv'⟩, ?_, ?_⟩
  · rw [← h.host, ← hframe, ← hmsg]
    exact hserves.wire
  · intro ip
    rw [hcache, hlook, hip]

/-- A reachable stack learns the address of a host that asks for it. -/
theorem World.Reachable.learn (h : w.Reachable host) (peer : ArpHost) :
    ∃ w' : World, w'.Reachable host ∧ w'.cache.lookup peer.ip = some peer.mac := by
  obtain ⟨w', hrun, -, -, hlook⟩ := h.up.receive (fun _ => 0) (Vector.replicate 6 0xff) peer.mac
    (ArpMessage.ipv4 1 peer.mac peer.ip (Vector.replicate 6 0xff) host.ip)
  refine ⟨w', h.round _ _ hrun, ?_⟩
  rw [hlook]
  exact if_pos ⟨⟨⟨rfl, rfl⟩, rfl, rfl⟩, Or.inr rfl, rfl⟩

/-- Some run of the host has learned the address of the peer. -/
theorem exists_learned (host peer : ArpHost) :
    ∃ w : World, w.Reachable host ∧ w.cache.lookup peer.ip = some peer.mac := by
  obtain ⟨cache, hinit, -⟩ := arpInit_spec
  exact (World.Reachable.boot (fun _ _ => 0) hinit).learn peer

end Up

end TcpIp
