import TcpIp.Run

/-!
# ARP resolution between two instances

`arp_resolve_ipv4` of an unknown address sends a request and gives up. This module follows the
exchange that the request starts: the other host learns the asker's address and answers
(`Up.hear_request`), the asker learns the answer (`Up.hear_reply`), and the next resolution on
either side is answered from the cache.
-/

namespace TcpIp

open Bytes Prog World

/-- `arp_resolve_ipv4` answers `mac`, and neither changes nor sends anything. -/
def World.Resolves (w : World) (ip : UInt32) (mac : Mac) : Prop :=
  ∃ cell, arpResolveIpv4 ip w = (.ok (some cell), w) ∧ derefMac cell w = (.ok mac, w)

/-- The answer of `host` to a request of `peer`. -/
def ArpHost.reply (host peer : ArpHost) : Frame :=
  ethFrame peer.mac host.mac 0x0806 (ArpMessage.ipv4 2 host.mac host.ip peer.mac peer.ip).encode

namespace World.Up

variable {host peer : ArpHost} {w : World}

theorem resolves (h : w.Up host) {ip : UInt32} {mac : Mac} (hlook : w.cache.lookup ip = some mac) :
    w.Resolves ip mac := by
  obtain ⟨cell, hrun, hderef⟩ := arpResolveIpv4_hit h.valid hlook
  exact ⟨cell, hrun, hderef w rfl⟩

/-- An unknown address is asked for. -/
theorem ask (h : w.Up host) {ip : UInt32} (hlook : w.cache.lookup ip = none) :
    ∃ w', arpResolveIpv4 ip w = (.ok none, w') ∧ w'.Up host ∧ w'.cache = w.cache ∧
      w'.wire = w.wire ++ [host.request ip] := by
  obtain ⟨w', hrun, hcache, hserves⟩ := arpResolveIpv4_miss h.ready h.valid hlook
  refine ⟨w', hrun, ?_, hcache, ?_⟩
  · exact ⟨hserves.ready, hserves.host_eq.trans h.host, by rw [hcache]; exact h.valid⟩
  · rw [hserves.wire, h.host]

/-- A request for the host's address is answered, and teaches it the address of the sender. -/
theorem hear_request (h : w.Up host) (buffer : Nat → UInt8) (peer : ArpHost) :
    ∃ w', processIoBody (some (peer.request host.ip)) (w.withRx buffer) = (.ok (), w') ∧
      w'.Up host ∧ w'.wire = w.wire ++ [host.reply peer] ∧
      w'.cache.lookup peer.ip = some peer.mac ∧
      ∀ ip, ip ≠ peer.ip → w'.cache.lookup ip = w.cache.lookup ip := by
  obtain ⟨w', hrun, hup, hwire, hlook⟩ := h.receive buffer (Vector.replicate 6 0xff) peer.mac
    (ArpMessage.ipv4 1 peer.mac peer.ip (Vector.replicate 6 0xff) host.ip)
  refine ⟨w', hrun, hup, ?_, ?_, fun ip hip => ?_⟩
  · rw [hwire, ArpHost.replies_request ⟨⟨rfl, rfl⟩, rfl, rfl⟩ rfl rfl]
    rfl
  · rw [hlook]
    exact if_pos ⟨⟨⟨rfl, rfl⟩, rfl, rfl⟩, Or.inr rfl, rfl⟩
  · rw [hlook]
    exact if_neg fun h => hip h.2.2

/-- A reply is not answered, and teaches the host the address of the sender. -/
theorem hear_reply (h : w.Up host) (buffer : Nat → UInt8) (peer : ArpHost) :
    ∃ w', processIoBody (some (peer.reply host)) (w.withRx buffer) = (.ok (), w') ∧
      w'.Up host ∧ w'.wire = w.wire ∧ w'.cache.lookup peer.ip = some peer.mac ∧
      ∀ ip, ip ≠ peer.ip → w'.cache.lookup ip = w.cache.lookup ip := by
  obtain ⟨w', hrun, hup, hwire, hlook⟩ := h.receive buffer host.mac peer.mac
    (ArpMessage.ipv4 2 peer.mac peer.ip host.mac host.ip)
  have hreply : (2 : UInt16) ≠ 1 := by decide
  refine ⟨w', hrun, hup, ?_, ?_, fun ip hip => ?_⟩
  · rw [hwire, ArpHost.replies_nil fun _ _ => hreply, List.append_nil]
  · rw [hlook]
    exact if_pos ⟨⟨⟨rfl, rfl⟩, rfl, rfl⟩, Or.inr rfl, rfl⟩
  · rw [hlook]
    exact if_neg fun h => hip h.2.2

end World.Up

/-- **ARP resolution succeeds.** `hostA` does not know the address of `hostB`. The request it sends,
handled by `hostB`, and the reply to it, handled by `hostA`, teach each the address of the other;
nothing else changes in either cache. The buffers of the receiving threads hold anything. -/
theorem arp_resolution {hostA hostB : ArpHost} {wA wB : World} (hA : wA.Reachable hostA)
    (hB : wB.Reachable hostB) (hmiss : isInArpCache ARP_IPV4 hostB.ip wA.cache = some false)
    (bufferA bufferB : Nat → UInt8) :
    ∃ (wA₁ wA₂ wB₁ : World) (request reply : Frame),
      arpResolveIpv4 hostB.ip wA = (.ok none, wA₁) ∧ wA₁.wire = wA.wire ++ [request] ∧
      processIoBody (some request) (wB.withRx bufferB) = (.ok (), wB₁) ∧
      wB₁.wire = wB.wire ++ [reply] ∧ reply.take 6 = hostA.mac.toList ∧
      processIoBody (some reply) (wA₁.withRx bufferA) = (.ok (), wA₂) ∧ wA₂.wire = wA₁.wire ∧
      wA₂.Resolves hostB.ip hostB.mac ∧ wB₁.Resolves hostA.ip hostA.mac ∧
      (∀ ip, ip ≠ hostB.ip → wA₂.cache.lookup ip = wA.cache.lookup ip) ∧
      ∀ ip, ip ≠ hostA.ip → wB₁.cache.lookup ip = wB.cache.lookup ip := by
  have hlook : wA.cache.lookup hostB.ip = none := by
    rw [hA.up.valid.isIn, Option.some.injEq, Option.isSome_eq_false_iff,
      Option.isNone_iff_eq_none] at hmiss
    exact hmiss
  obtain ⟨wA₁, hask, hupA₁, hcacheA₁, hwireA₁⟩ := hA.up.ask hlook
  obtain ⟨wB₁, hrunB, hupB, hwireB, hlookB, hotherB⟩ := hB.up.hear_request bufferB hostA
  obtain ⟨wA₂, hrunA, hupA₂, hwireA₂, hlookA, hotherA⟩ := hupA₁.hear_reply bufferA hostB
  refine ⟨wA₁, wA₂, wB₁, _, _, hask, hwireA₁, hrunB, hwireB, ?_, hrunA, hwireA₂,
    hupA₂.resolves hlookA, hupB.resolves hlookB, fun ip hip => ?_, hotherB⟩
  · rw [ArpHost.reply, ethFrame, List.append_assoc, List.append_assoc,
      List.take_left' hostA.mac.length_toList]
  · rw [hotherA ip hip, hcacheA₁]

/-- The two hosts of a network, just booted. -/
theorem arp_resolution_boot :
    ∃ wA wB wA₂ wB₁ : World, wA.Reachable ⟨0x0100000a, #v[2, 0, 0, 0, 0, 1]⟩ ∧
      wB.Reachable ⟨0x0200000a, #v[2, 0, 0, 0, 0, 2]⟩ ∧
      wA₂.Resolves 0x0200000a #v[2, 0, 0, 0, 0, 2] ∧
      wB₁.Resolves 0x0100000a #v[2, 0, 0, 0, 0, 1] := by
  obtain ⟨cache, hinit, hv, hempty⟩ := arpInit_spec
  have hA : World.Reachable ⟨0x0100000a, #v[2, 0, 0, 0, 0, 1]⟩ _ := .boot (fun _ _ => 0) hinit
  have hB : World.Reachable ⟨0x0200000a, #v[2, 0, 0, 0, 0, 2]⟩ _ := .boot (fun _ _ => 0) hinit
  have hmiss : isInArpCache ARP_IPV4 0x0200000a cache = some false := by
    rw [hv.isIn, hempty]
    rfl
  obtain ⟨wA₁, wA₂, wB₁, -, -, -, -, -, -, -, -, -, hresA, hresB, -⟩ :=
    arp_resolution hA hB hmiss (fun _ => 0) (fun _ => 0)
  exact ⟨_, _, wA₂, wB₁, hA, hB, hresA, hresB⟩

end TcpIp
