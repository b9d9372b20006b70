import TcpIp.Protocols.Arp
import TcpIp.Protocols.ArpSpec

/-!
# What the ARP handlers do

The handlers of `arp.c` on a message in memory, in the terms of `ArpSpec`:

* `arpMerge`: the cache operations `arp_receive` does for a message, and `Valid.merge`: they succeed
  and merge the message as the algorithm says.
* `arpReceive_spec`: `arp_receive` returns, merges the message and sends the replies.
* `arpResolveIpv4_hit`, `arpResolveIpv4_miss`: the cached address, or one broadcast request.
-/

namespace TcpIp

open Bytes Prog World

/-- The host that the interface belongs to. -/
def NetInterface.host (net : NetInterface) : ArpHost := ⟨net.ip, net.mac⟩

theorem World.Serves.host_eq {w w' : World} {frames : List Frame} (h : w.Serves w' frames) :
    w'.net.host = w.net.host := by
  simp only [NetInterface.host, h.ip, h.mac]

/-- The message in memory, in network order. -/
def World.arpMessage (w : World) (p : Ptr) : ArpMessage := .ofBytes (w.mem p.obj) p.off

/-- The 28 bytes of a message, field by field. -/
theorem World.bytes_arpMessage (w : World) (p : Ptr) :
    w.bytes p 28 = bytes16 (w.u16 p) ++ bytes16 (w.u16 (p + 2)) ++ [w.u8 (p + 4), w.u8 (p + 5)] ++
      bytes16 (w.u16 (p + 6)) ++ (w.mac (p + 8)).toList ++ bytes32 (w.u32 (p + 14)) ++
      (w.mac (p + 18)).toList ++ bytes32 (w.u32 (p + 24)) := by
  have hsizes : [w.u8 (p + 4), w.u8 (p + 5)] = w.bytes (p + 4) 2 := rfl
  simp only [← bytes_two, ← bytes_four, ← bytes_six, hsizes]
  show w.bytes p (2 + 2 + 2 + 2 + 6 + 4 + 6 + 4) = _
  simp only [bytes_add]

/-! ## Replies and requests -/

/-- The message `arp_reply` makes of the header at `p`: the types and sizes are the ones it finds. -/
def World.replyMessage (w : World) (p : Ptr) : ArpMessage :=
  { hwType := w.u16 p, proType := w.u16 (p + 2), hwSize := w.u8 (p + 4), proSize := w.u8 (p + 5),
    opcode := 2, srcMac := w.net.mac, srcIp := w.net.ip, dstMac := w.mac (p + 8),
    dstIp := w.u32 (p + 14) }

/-- `arp_reply` on any header. -/
theorem arpReply_serves {w : World} (hr : w.net.Ready) (p : Ptr) :
    ∃ w', arpReply p w = (.ok (), w') ∧ w'.cache = w.cache ∧
      w.Serves w' [ethFrame (w.mac (p + 8)) w.net.mac 0x0806 (w.replyMessage p).encode] := by
  simp only [arpReply, arpHeaderHton, bind_assoc, loadU32_bind, storeU32_bind, loadMac_bind,
    storeMac_bind, netInterfaceGetIp_bind, netInterfaceGetMac_bind, storeU16_bind,
    arpHeaderFprint_bind, swapField16_bind]
  -- The world in which the message is complete.
  generalize hW : World.touch _ (p + 8 + 10) 6 = W
  have hstart : w.Serves W [] := by subst hW; exact .of_eq hr rfl rfl
  have hcache : W.cache = w.cache := by subst hW; rfl
  have hbytes : W.bytes p 28 = (w.replyMessage p).encode := by
    subst hW
    simp [bytes_arpMessage, ArpMessage.encode, replyMessage, ntohs, ARP_REPLY]
  obtain ⟨w', hsend, hserves, hcache', -⟩ := netInterfaceSend_spec hstart.ready p
    (show sizeofArpMessage + 14 < 2 ^ 32 by decide) (w.mac (p + 8)) ETH_P_ARP
  rw [hstart.mac, sizeofArpMessage, hbytes] at hserves
  refine ⟨w', ?_, hcache'.trans hcache, hstart.trans hserves⟩
  simpa using hsend

/-- `arp_reply` on a message with its header in host order. -/
theorem arpReply_spec {w : World} (hr : w.net.Ready) {p : Ptr} (hhw : w.u16 p = 1)
    (hpro : w.u16 (p + 2) = 0x0800) (hhs : w.u8 (p + 4) = 6) (hps : w.u8 (p + 5) = 4) :
    ∃ w', arpReply p w = (.ok (), w') ∧ w'.cache = w.cache ∧
      w.Serves w' [ethFrame (w.mac (p + 8)) w.net.mac 0x0806
        (ArpMessage.ipv4 2 w.net.mac w.net.ip (w.mac (p + 8)) (w.u32 (p + 14))).encode] := by
  have hmsg : w.replyMessage p =
      ArpMessage.ipv4 2 w.net.mac w.net.ip (w.mac (p + 8)) (w.u32 (p + 14)) := by
    simp only [replyMessage, ArpMessage.ipv4, hhw, hpro, hhs, hps]
  rw [← hmsg]
  exact arpReply_serves hr p

/-- `arp_resolve_ipv4` of an address that is not cached. -/
theorem arpRequest_spec {w : World} (hr : w.net.Ready) (ipv4 : UInt32) :
    ∃ w', arpRequest ipv4 w = (.ok (), w') ∧ w'.cache = w.cache ∧
      w.Serves w' [w.net.host.request ipv4] := by
  simp only [arpRequest, arpHeaderHton, bind_assoc, callocObj_bind, storeU16_bind, storeU8_bind,
    swapField16_bind, storeU32_bind, storeMac_bind, netInterfaceGetIp_bind, netInterfaceGetMac_bind,
    netInterfaceBroadcast]
  generalize (⟨.request, 0⟩ : Ptr) = p
  generalize hW : World.write _ (p + 8) _ = W
  have hstart : w.Serves W [] := by subst hW; exact .of_eq hr rfl rfl
  have hcache : W.cache = w.cache := by subst hW; rfl
  have hbytes : W.bytes p 28 =
      (ArpMessage.ipv4 1 w.net.mac w.net.ip BROADCAST ipv4).encode := by
    subst hW
    simp [bytes_arpMessage, ArpMessage.encode, ArpMessage.ipv4, ntohs, ARP_ETHERNET, ARP_IPV4,
      ARP_REQUEST]
  obtain ⟨w', hsend, hserves, hcache', -⟩ := netInterfaceSend_spec hstart.ready p
    (show sizeofArpMessage + 14 < 2 ^ 32 by decide) BROADCAST ETH_P_ARP
  rw [hstart.mac, sizeofArpMessage, hbytes] at hserves
  refine ⟨w', ?_, hcache'.trans hcache, hstart.trans hserves⟩
  simpa using hsend

/-! ## The cache -/

/-- The cache operations `arp_receive` does for a message. -/
def arpMerge (ip : UInt32) (msg : ArpMessage) (cache : ArpCache) : Except Stop ArpCache :=
  if msg.Supported then
    match isInArpCache ARP_IPV4 msg.srcIp cache with
    | none => .error .hang
    | some true => setInArpCache ARP_IPV4 msg.srcIp msg.srcMac cache
    | some false =>
      if msg.dstIp = ip then addToArpCache ARP_IPV4 msg.srcIp msg.srcMac cache else .ok cache
  else .ok cache

/-- The cache holds exactly the entries of `table`, as its own operations tell. -/
structure ArpCache.Represents (cache : ArpCache) (table : ArpTable) : Prop where
  contains : ∀ ip, isInArpCache ARP_IPV4 ip cache = some (decide (ip ∈ table))
  get : ∀ ip mac, table.lookup ip = some mac →
    ∃ cell, cacheGet ARP_IPV4 ip cache = some (some cell) ∧ cache.cells[cell]? = some mac
  only : ∀ key, hashmapContainsKey cache.map key = some true →
    ∃ ip ∈ table, key.val = toKey ARP_IPV4 ip

namespace ArpCache

variable {cache : ArpCache} {table : ArpTable}

theorem Valid.represents (hv : cache.Valid) (h : ∀ ip, cache.lookup ip = table.lookup ip) :
    cache.Represents table := by
  refine ⟨fun ip => ?_, fun ip mac hmac => ?_, fun key hkey => ?_⟩
  · rw [hv.isIn, h, Option.some.injEq, Bool.eq_iff_iff, decide_eq_true_iff, Finmap.lookup_isSome]
  · obtain ⟨n, mac', hmap, -, hcell, hlook⟩ := hv.exists_cell
      (show (cache.lookup ip).isSome by rw [h, hmac]; rfl)
    rw [h, hmac] at hlook
    exact ⟨n, hv.get hmap, by rw [hcell, hlook]⟩
  · rw [hv.sound.containsKey] at hkey
    obtain ⟨ref, href⟩ := Option.isSome_iff_exists.mp (Option.some.inj hkey)
    obtain ⟨ip, hip⟩ := hv.ipv4 href
    refine ⟨ip, ?_, hip⟩
    have heq : cache.map.equals key (stackKey ARP_IPV4 ip) := by
      rw [hv.equals]; simp [arpEquals, stackKey, hip]
    rw [← Finmap.lookup_isSome, ← h, ← hv.lookup_isSome, ← hv.sound.lookup_congr heq, href]
    rfl

/-- The cache operations for a message succeed and write at most the sender's entry. -/
theorem Valid.exists_merge (hv : cache.Valid) (ip : UInt32) (msg : ArpMessage) :
    ∃ cache', arpMerge ip msg cache = .ok cache' ∧ cache'.Valid ∧
      ∀ ip', cache'.lookup ip' =
        if msg.Supported ∧ ((cache.lookup msg.srcIp).isSome ∨ msg.dstIp = ip) ∧ ip' = msg.srcIp then
          some msg.srcMac
        else cache.lookup ip' := by
  simp only [arpMerge, hv.isIn]
  by_cases hs : msg.Supported
  · rw [if_pos hs]
    cases hin : (cache.lookup msg.srcIp).isSome with
    | true =>
      obtain ⟨cache', hset, hv', hlook⟩ := hv.set_spec hin msg.srcMac
      exact ⟨cache', hset, hv', by simpa [hs] using hlook⟩
    | false =>
      by_cases hip : msg.dstIp = ip
      · obtain ⟨cache', hadd, hv', hlook⟩ := hv.add_spec msg.srcIp msg.srcMac
        exact ⟨cache', by simpa [hip] using hadd, hv', by simpa [hs, hip] using hlook⟩
      · exact ⟨cache, by simp [hip], hv, by simp [hip]⟩
  · exact ⟨cache, by rw [if_neg hs], hv, by simp [hs]⟩

/-- They merge the message as the reference machine does. -/
theorem Valid.merge (hv : cache.Valid) (h : ∀ ip, cache.lookup ip = table.lookup ip)
    (host : ArpHost) (msg : ArpMessage) :
    ∃ cache', arpMerge host.ip msg cache = .ok cache' ∧ cache'.Valid ∧
      ∀ ip, cache'.lookup ip = (host.merge msg table).lookup ip := by
  obtain ⟨cache', hm, hv', hlook⟩ := hv.exists_merge host.ip msg
  refine ⟨cache', hm, hv', fun ip => ?_⟩
  simp only [hlook, ArpHost.lookup_merge, h, Finmap.lookup_isSome]

end ArpCache

/-- An unsupported message has no effect. -/
theorem arpMerge_unsupported {w : World} (hr : w.net.Ready) {msg : ArpMessage}
    (hs : ¬ msg.Supported) {cache' : ArpCache} (hm : arpMerge w.net.ip msg w.cache = .ok cache') :
    w.cache = cache' ∧ ∀ {w' : World}, w'.net = w.net → w'.wire = w.wire →
      w.Serves w' (w.net.host.replies msg) := by
  unfold arpMerge at hm
  rw [if_neg hs] at hm
  rw [ArpHost.replies_nil fun h => absurd h hs]
  exact ⟨Except.ok.inj hm, fun hn hw => .of_eq hr hn hw⟩

/-! ## Reception -/

/-- The message at `p` with its numeric fields in host order, as the handlers read it. -/
structure World.HostOrder (w : World) (p : Ptr) (msg : ArpMessage) : Prop where
  hwType : w.u16 p = msg.hwType
  proType : w.u16 (p + 2) = msg.proType
  hwSize : w.u8 (p + 4) = msg.hwSize
  proSize : w.u8 (p + 5) = msg.proSize
  opcode : w.u16 (p + 6) = msg.opcode
  srcMac : w.mac (p + 8) = msg.srcMac
  srcIp : w.u32 (p + 14) = msg.srcIp
  dstIp : w.u32 (p + 24) = msg.dstIp

/-- `arp_header_ntoh` leaves the message in host order. -/
theorem arpHeaderNtoh_spec (p : Ptr) (w : World) :
    ∃ w', arpHeaderNtoh p w = (.ok (), w') ∧ w'.HostOrder p (w.arpMessage p) ∧
      w'.net = w.net ∧ w'.cache = w.cache ∧ w'.wire = w.wire := by
  have hswap : ∀ q, ntohs (w.u16 q) = le16 (w.u8 (q + 1)) (w.u8 q) := fun q => by
    simp [ntohs, World.u16]
  simp only [arpHeaderNtoh, swapField16_bind, swapField16_apply]
  refine ⟨_, rfl, ?_, rfl, rfl, rfl⟩
  constructor
  all_goals simp only [write_u16_same, write_u16_ne, write_u8_ne, write_u32_ne, write_mac_ne,
    touch_u16, touch_u8, touch_u32, touch_mac, Ptr.apart_add_add, Ptr.apart_add_left,
    Ptr.apart_add_right, length_bytes16, Nat.reduceAdd, Nat.reduceLeDiff, true_or, or_true]
  all_goals first | rfl | (rw [hswap]; rfl)

/-- Only memory matters. -/
theorem World.HostOrder.of_mem {w w' : World} {p : Ptr} {msg : ArpMessage}
    (h : w.HostOrder p msg) (hm : w'.mem = w.mem) : w'.HostOrder p msg := by
  obtain ⟨mem, touched, net, cache, wire⟩ := w'
  subst hm
  exact ⟨h.hwType, h.proType, h.hwSize, h.proSize, h.opcode, h.srcMac, h.srcIp, h.dstIp⟩

/-- The opcode check of `arp_receive`. -/
theorem arpReceiveOpcode_spec {w : World} (hr : w.net.Ready) {p : Ptr} {msg : ArpMessage}
    (ho : w.HostOrder p msg) (hs : msg.Supported) (hip : msg.dstIp = w.net.ip) :
    ∃ w', arpReceiveOpcode p w = (.ok (), w') ∧ w'.cache = w.cache ∧
      w.Serves w' (w.net.host.replies msg) := by
  have hload : arpReceiveOpcode p w = (if msg.opcode = ARP_REQUEST then arpReply p
      else if msg.opcode = ARP_REPLY then pure () else touch (p + 6) 2) (w.touch (p + 6) 2) := by
    rw [← ho.opcode]
    rfl
  rw [hload]
  by_cases hop : msg.opcode = ARP_REQUEST
  · rw [if_pos hop, ArpHost.replies_request hs hip hop]
    obtain ⟨⟨hhw, hhs⟩, hpro, hps⟩ := hs
    obtain ⟨w', hrun, hcache, hserves⟩ := arpReply_spec (w := w.touch (p + 6) 2) (p := p) hr
      (ho.hwType.trans hhw) (ho.proType.trans hpro) (ho.hwSize.trans hhs) (ho.proSize.trans hps)
    refine ⟨w', hrun, hcache, ?_⟩
    simp only [touch_mac, touch_u32, touch_net, ho.srcMac, ho.srcIp] at hserves
    exact hserves.start rfl rfl
  · rw [if_neg hop, ArpHost.replies_nil fun _ _ => hop]
    split
    · exact ⟨_, rfl, rfl, .of_eq hr rfl rfl⟩
    · exact ⟨_, rfl, rfl, .of_eq hr rfl rfl⟩

/-- The target check of `arp_receive`: `cache'` is the cache with the sender added, where the code
adds it. -/
theorem arpReceiveTarget_spec {w : World} (hr : w.net.Ready) {p : Ptr} {msg : ArpMessage}
    (ho : w.HostOrder p msg) (hs : msg.Supported) (mergeFlag : Bool) {cache' : ArpCache}
    (hc : (if msg.dstIp = w.net.ip ∧ mergeFlag = false then
      addToArpCache ARP_IPV4 msg.srcIp msg.srcMac w.cache else .ok w.cache) = .ok cache') :
    ∃ w', arpReceiveTarget p ARP_IPV4 msg.srcIp mergeFlag w = (.ok (), w') ∧ w'.cache = cache' ∧
      w.Serves w' (w.net.host.replies msg) := by
  have hload : arpReceiveTarget p ARP_IPV4 msg.srcIp mergeFlag w =
      (if msg.dstIp = w.net.ip then
        if mergeFlag then arpReceiveOpcode p
        else touch (p + 14) 4 >>= fun _ => loadMac (p + 8) >>= fun srcMac =>
          cacheUpdate (addToArpCache ARP_IPV4 msg.srcIp srcMac) >>= fun _ => arpReceiveOpcode p
      else pure ()) (w.touch (p + 24) 4) := by
    rw [← ho.dstIp]
    rfl
  rw [hload]
  by_cases hip : msg.dstIp = w.net.ip
  · rw [if_pos hip]
    cases mergeFlag with
    | true =>
      obtain rfl : w.cache = cache' := by simpa using hc
      obtain ⟨w', hrun, hcache, hserves⟩ :=
        arpReceiveOpcode_spec (w := w.touch (p + 24) 4) hr (ho.of_mem rfl) hs hip
      exact ⟨w', hrun, hcache, hserves.start rfl rfl⟩
    | false =>
      rw [if_pos ⟨hip, rfl⟩, ← ho.srcMac] at hc
      rw [if_neg Bool.false_ne_true, touch_bind, loadMac_bind]
      obtain ⟨w', hrun, hcache, hserves⟩ := arpReceiveOpcode_spec
        (w := { ((w.touch (p + 24) 4).touch (p + 14) 4).touch (p + 8) 6 with cache := cache' })
        hr (ho.of_mem rfl) hs hip
      refine ⟨w', (cacheUpdate_bind _ ?_ _).trans hrun, hcache, hserves.start rfl rfl⟩
      exact hc
  · rw [if_neg hip]
    obtain rfl : w.cache = cache' := by simpa [hip] using hc
    rw [ArpHost.replies_nil fun _ h => absurd h hip]
    exact ⟨_, rfl, rfl, .of_eq hr rfl rfl⟩

/-- A message for IPv4 over Ethernet. -/
theorem arpReceiveIpv4_spec {w : World} (hr : w.net.Ready) {p : Ptr} {msg : ArpMessage}
    (ho : w.HostOrder p msg) (hs : msg.Supported) {cache' : ArpCache}
    (hm : arpMerge w.net.ip msg w.cache = .ok cache') :
    ∃ w', arpReceiveIpv4 p ARP_IPV4 w = (.ok (), w') ∧ w'.cache = cache' ∧
      w.Serves w' (w.net.host.replies msg) := by
  have hload : arpReceiveIpv4 p ARP_IPV4 w = (do
      let inCache ← cacheQuery (isInArpCache ARP_IPV4 msg.srcIp)
      if inCache then
        let srcMac ← loadMac (p + 8)
        cacheUpdate (setInArpCache ARP_IPV4 msg.srcIp srcMac)
        arpReceiveTarget p ARP_IPV4 msg.srcIp true
      else arpReceiveTarget p ARP_IPV4 msg.srcIp false : M Unit) (w.touch (p + 14) 4) := by
    rw [← ho.srcIp]
    rfl
  unfold arpMerge at hm
  rw [if_pos hs] at hm
  split at hm
  · cases hm
  · rename_i hin
    rw [← ho.srcMac] at hm
    obtain ⟨w', hrun, hcache, hserves⟩ := arpReceiveTarget_spec
      (w := { (w.touch (p + 14) 4).touch (p + 8) 6 with cache := cache' })
      hr (ho.of_mem rfl) hs true (if_neg fun h => Bool.noConfusion h.2)
    refine ⟨w', ?_, hcache, hserves.start rfl rfl⟩
    rw [hload, cacheQuery_bind _ (a := true), if_pos rfl, loadMac_bind]
    · refine (cacheUpdate_bind _ ?_ _).trans hrun
      exact hm
    · exact hin
  · rename_i hin
    obtain ⟨w', hrun, hcache, hserves⟩ := arpReceiveTarget_spec
      (w := w.touch (p + 14) 4) hr (ho.of_mem rfl) hs false (by simpa using hm)
    refine ⟨w', ?_, hcache, hserves.start rfl rfl⟩
    rw [hload, cacheQuery_bind _ (a := false), if_neg Bool.false_ne_true]
    · exact hrun
    · exact hin

/-- The protocol check of `arp_receive`. -/
theorem arpReceiveProtocol_spec {w : World} (hr : w.net.Ready) {p : Ptr} {msg : ArpMessage}
    (ho : w.HostOrder p msg) (hhw : msg.hwType = ARP_ETHERNET ∧ msg.hwSize = 6)
    {cache' : ArpCache} (hm : arpMerge w.net.ip msg w.cache = .ok cache') :
    ∃ w', arpReceiveProtocol p w = (.ok (), w') ∧ w'.cache = cache' ∧
      w.Serves w' (w.net.host.replies msg) := by
  have hload : arpReceiveProtocol p w =
      (if msg.proType = ARP_IPV4 ∧ msg.proSize = 4 then arpReceiveIpv4 p msg.proType
        else touch p 8) ((w.touch (p + 2) 2).touch (p + 5) 1) := by
    rw [← ho.proType, ← ho.proSize]
    rfl
  rw [hload]
  by_cases hpro : msg.proType = ARP_IPV4 ∧ msg.proSize = 4
  · rw [if_pos hpro, hpro.1]
    obtain ⟨w', hrun, hcache, hserves⟩ := arpReceiveIpv4_spec
      (w := (w.touch (p + 2) 2).touch (p + 5) 1) hr (ho.of_mem rfl) ⟨hhw, hpro⟩ hm
    exact ⟨w', hrun, hcache, hserves.start rfl rfl⟩
  · rw [if_neg hpro]
    obtain ⟨hcache, hserves⟩ := arpMerge_unsupported hr (fun hs => hpro hs.2) hm
    exact ⟨_, rfl, hcache, hserves rfl rfl⟩

/-- **`arp_receive`** returns: it merges the message into the cache and sends the replies. -/
theorem arpReceive_spec {w : World} (hr : w.net.Ready) (p : Ptr) {cache' : ArpCache}
    (hm : arpMerge w.net.ip (w.arpMessage (p + 14)) w.cache = .ok cache') :
    ∃ w', arpReceive p w = (.ok (), w') ∧ w'.cache = cache' ∧
      w.Serves w' (w.net.host.replies (w.arpMessage (p + 14))) := by
  obtain ⟨W, hntoh, ho, hnet, hcache, hwire⟩ := arpHeaderNtoh_spec (p + 14) w
  generalize w.arpMessage (p + 14) = msg at hm ho ⊢
  have hload : arpReceive p w =
      (if msg.hwType = ARP_ETHERNET ∧ msg.hwSize = 6 then arpReceiveProtocol (p + 14)
        else touch (p + 14) 8) (((W.touch (p + 14) 8).touch (p + 14) 2).touch (p + 14 + 4) 1) := by
    rw [← ho.hwType, ← ho.hwSize]
    exact bind_ok hntoh
  rw [hload]
  by_cases hhw : msg.hwType = ARP_ETHERNET ∧ msg.hwSize = 6
  · rw [if_pos hhw]
    obtain ⟨w', hrun, hc, hserves⟩ := arpReceiveProtocol_spec
      (w := ((W.touch (p + 14) 8).touch (p + 14) 2).touch (p + 14 + 4) 1)
      (by simpa [hnet] using hr) (ho.of_mem rfl) hhw (by simpa [hnet, hcache] using hm)
    refine ⟨w', hrun, hc, ?_⟩
    simp only [touch_net, hnet] at hserves
    exact hserves.start hnet hwire
  · rw [if_neg hhw]
    obtain ⟨hc, hserves⟩ := arpMerge_unsupported hr (fun hs => hhw hs.1) hm
    exact ⟨_, rfl, hcache.trans hc, hserves hnet hwire⟩

/-! ## Resolution -/

/-- A cached address is answered from the cache. -/
theorem arpResolveIpv4_hit {w : World} (hv : w.cache.Valid) {ip : UInt32} {mac : Mac}
    (h : w.cache.lookup ip = some mac) :
    ∃ cell, arpResolveIpv4 ip w = (.ok (some cell), w) ∧
      ∀ w' : World, w'.cache = w.cache → derefMac cell w' = (.ok mac, w') := by
  obtain ⟨cell, mac', hmap, -, hcell, hlook⟩ := hv.exists_cell
    (show (w.cache.lookup ip).isSome by rw [h]; rfl)
  have hin : isInArpCache ARP_IPV4 ip w.cache = some true := by rw [hv.isIn, h]; rfl
  refine ⟨cell, ?_, fun w' hw' => ?_⟩
  · unfold arpResolveIpv4
    rw [cacheQuery_bind _ hin, if_pos rfl, cacheQuery, hv.get hmap]
  · rw [h] at hlook
    unfold derefMac
    rw [gets_apply, hw', List.getD_eq_getElem?_getD, hcell, ← hlook, Option.getD_some]

/-- An address that is not cached costs one request. -/
theorem arpResolveIpv4_miss {w : World} (hr : w.net.Ready) (hv : w.cache.Valid) {ip : UInt32}
    (h : w.cache.lookup ip = none) :
    ∃ w', arpResolveIpv4 ip w = (.ok none, w') ∧ w'.cache = w.cache ∧
      w.Serves w' [w.net.host.request ip] := by
  have hin : isInArpCache ARP_IPV4 ip w.cache = some false := by rw [hv.isIn, h]; rfl
  obtain ⟨w', hrun, hcache, hserves⟩ := arpRequest_spec hr ip
  refine ⟨w', ?_, hcache, hserves⟩
  unfold arpResolveIpv4
  rw [cacheQuery_bind _ hin, if_neg Bool.false_ne_true, bind_ok hrun]
  rfl

end TcpIp
